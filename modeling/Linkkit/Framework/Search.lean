import Linkkit.Framework.Buf

/-!
# Searching strings

`strstr` on an object, `none` inside the result standing for `NULL`. With a
search for one byte the code finds what is between its first two places in a
string (`Between`); `strstr_byte` and `strstr_byte_none` are the two outcomes,
and `between_or` says that a string without such a part has one place or none.
-/

namespace Linkkit

/-- `strstr`: where the string `t` first is in the string that an object holds,
or `NULL`. -/
def strstr : List Byte → List Byte → Option (Option Nat)
  | [], _ => none
  | b :: bs, t =>
    if t.isPrefixOf (b :: bs) then some (some 0)
    else if b = 0 then some none
    else (strstr bs t).map (Option.map (· + 1))

theorem strstr_cons (b : Byte) (bs : List Byte) (q : Byte) : strstr (b :: bs) [q] =
    if q = b then some (some 0) else if b = 0 then some none else (strstr bs [q]).map (Option.map (· + 1)) := by
  rw [strstr]
  simp only [List.isPrefixOf, Bool.and_true, beq_iff_eq]

/-- The first place of a byte. -/
theorem strstr_byte {q : Byte} {p : List Byte} (h0 : 0 ∉ p) (hq : q ∉ p) (rest : List Byte) :
    strstr (p ++ q :: rest) [q] = some (some p.length) := by
  induction p with
  | nil => rw [List.nil_append, strstr_cons, if_pos rfl, List.length_nil]
  | cons b p ih =>
    simp only [List.mem_cons, not_or] at h0 hq
    rw [List.cons_append, strstr_cons, if_neg hq.1, if_neg (Ne.symm h0.1), ih h0.2 hq.2]
    rfl

/-- A byte that is not in the string. -/
theorem strstr_byte_none {q : Byte} {s : List Byte} (hn : q ≠ 0) (h0 : 0 ∉ s) (hq : q ∉ s) (rest : List Byte) :
    strstr (s ++ 0 :: rest) [q] = some none := by
  induction s with
  | nil => rw [List.nil_append, strstr_cons, if_neg hn, if_pos rfl]
  | cons b s ih =>
    simp only [List.mem_cons, not_or] at h0 hq
    rw [List.cons_append, strstr_cons, if_neg hq.1, if_neg (Ne.symm h0.1), ih h0.2 hq.2]
    rfl

/-- A string is found exactly if it stands in the other. -/
theorem strstr_found_iff {t s : List Byte} (ht : 0 ∉ t) (hne : t ≠ []) (h0 : 0 ∉ s) (rest : List Byte) :
    ∃ r, strstr (s ++ 0 :: rest) t = some r ∧ (r.isSome = true ↔ t <:+: s) := by
  -- `t` has no terminator, so it does not reach behind that of the string.
  have hstart {s : List Byte} : t <+: s ++ 0 :: rest ↔ t <+: s := by
    refine ⟨fun h => ?_, fun h => h.trans (List.prefix_append s _)⟩
    by_cases hle : t.length ≤ s.length
    · exact List.prefix_of_prefix_length_le h (List.prefix_append s _) hle
    · obtain ⟨u, rfl⟩ := List.prefix_of_prefix_length_le (List.prefix_append s _) h (by omega)
      rw [List.prefix_append_right_inj] at h
      cases u with
      | nil => exact absurd (Nat.le_of_eq (by rw [List.append_nil])) hle
      | cons c u =>
        obtain ⟨rfl, -⟩ := List.cons_prefix_cons.mp h
        exact absurd (List.mem_append_right s List.mem_cons_self) ht
  induction s with
  | nil =>
    have hn : ¬ t <+: [] := fun h => hne (List.prefix_nil.mp h)
    refine ⟨none, ?_, iff_of_false Bool.false_ne_true fun h => hne (List.infix_nil.mp h)⟩
    rw [List.nil_append, strstr, if_neg (by rwa [List.isPrefixOf_iff_prefix, ← List.nil_append (0 :: rest), hstart]),
      if_pos rfl]
  | cons b s ih =>
    obtain ⟨hb, h0⟩ := not_or.mp (mt List.mem_cons.mpr h0)
    obtain ⟨r, hr, hiff⟩ := ih h0
    rw [List.cons_append, strstr, List.infix_cons_iff, ← hiff]
    by_cases hp : t <+: b :: s
    · have hfound : t.isPrefixOf (b :: (s ++ 0 :: rest)) = true := List.isPrefixOf_iff_prefix.mpr (hstart.mpr hp)
      rw [if_pos hfound]
      exact ⟨some 0, rfl, iff_of_true rfl (.inl hp)⟩
    · have hmiss : ¬ t.isPrefixOf (b :: (s ++ 0 :: rest)) = true := fun h =>
        hp (hstart.mp (List.isPrefixOf_iff_prefix.mp h))
      rw [if_neg hmiss, if_neg (Ne.symm hb), hr]
      refine ⟨r.map (· + 1), rfl, ?_⟩
      rw [Option.isSome_map, or_iff_right hp]

/-! ## Between two bytes -/

section

variable {α : Type*} {q : α} {l s t : List α}

/-- `s` stands between the first two places of `q` in `l`. -/
def Between (q : α) (l s : List α) : Prop := ∃ p r, l = p ++ q :: (s ++ q :: r) ∧ q ∉ p ∧ q ∉ s

/-- The first place of `q` splits a list in one way. -/
theorem append_cons_inj {p r p' r' : List α} (hp : q ∉ p) (hp' : q ∉ p') (h : p ++ q :: r = p' ++ q :: r') :
    p = p' ∧ r = r' := by
  classical
  have hl : p.length = p'.length := by
    have hi := congrArg (List.idxOf q) h
    simpa only [List.idxOf_append_of_notMem hp, List.idxOf_append_of_notMem hp', List.idxOf_cons_self,
      Nat.add_zero] using hi
  obtain ⟨hp, hr⟩ := List.append_inj h hl
  exact ⟨hp, (List.cons.inj hr).2⟩

theorem Between.unique (hs : Between q l s) (ht : Between q l t) : s = t := by
  obtain ⟨p, r, rfl, hp, hs⟩ := hs
  obtain ⟨p', r', h, hp', ht⟩ := ht
  exact (append_cons_inj hs ht (append_cons_inj hp hp' h).2).1

theorem Between.length (h : Between q l s) : s.length + 2 ≤ l.length := by
  obtain ⟨p, r, rfl, -, -⟩ := h
  simp only [List.length_append, List.length_cons]
  omega

/-- A list has two places of `q`, one, or none. -/
theorem between_or (q : α) (l : List α) :
    (∃ s, Between q l s) ∨ (∃ p r, l = p ++ q :: r ∧ q ∉ p ∧ q ∉ r) ∨ q ∉ l := by
  by_cases hl : q ∈ l
  · obtain ⟨p, r, rfl, hp⟩ := List.eq_append_cons_of_mem hl
    by_cases hr : q ∈ r
    · obtain ⟨s, r, rfl, hs⟩ := List.eq_append_cons_of_mem hr
      exact .inl ⟨s, p, r, rfl, hp, hs⟩
    · exact .inr (.inl ⟨p, r, rfl, hp, hr⟩)
  · exact .inr (.inr hl)

end

end Linkkit
