import Mathlib.Data.List.Basic
import Mathlib.Data.List.TakeWhile

/-!
# Fields of a text

A text of fields `key=value` with separators between them (`writeFields`), over
any alphabet, and how it is read: cut at its separators, and each field cut at
its first `=` (`readFields`). What is written is read back
(`readFields_writeFields`), as long as no separator stands where it would be
taken for one. Of a text that was cut off the parts are whole, but for the last
(`splitOn_of_cut`).
-/

namespace Linkkit

variable {α : Type*}

section

variable [DecidableEq α]

/-- What stands before and after the first `sep`. -/
def cut (sep : α) : List α → Option (List α × List α)
  | [] => none
  | a :: l => if a = sep then some ([], l) else (cut sep l).map fun p => (a :: p.1, p.2)

theorem cut_append {sep : α} {l : List α} (h : sep ∉ l) (r : List α) : cut sep (l ++ sep :: r) = some (l, r) := by
  induction l with
  | nil => exact if_pos rfl
  | cons a l ih =>
    simp only [List.mem_cons, not_or] at h
    rw [List.cons_append, cut, if_neg (Ne.symm h.1), ih h.2]
    rfl

theorem append_of_cut {sep : α} {l : List α} {p : List α × List α} (h : cut sep l = some p) :
    l = p.1 ++ sep :: p.2 := by
  induction l generalizing p with
  | nil => cases h
  | cons a l ih =>
    rw [cut] at h
    split at h
    · rename_i ha
      cases h
      exact congrArg (· :: l) ha
    · obtain ⟨q, hq, rfl⟩ := Option.map_eq_some_iff.mp h
      exact congrArg (a :: ·) (ih hq)

theorem notMem_of_cut {sep : α} {l : List α} {p : List α × List α} (h : cut sep l = some p) : sep ∉ p.1 := by
  induction l generalizing p with
  | nil => cases h
  | cons a l ih =>
    rw [cut] at h
    split at h
    · cases h
      exact List.not_mem_nil
    · rename_i ha
      obtain ⟨q, hq, rfl⟩ := Option.map_eq_some_iff.mp h
      exact fun hm => (List.mem_cons.mp hm).elim (fun he => ha he.symm) (ih hq)

/-- The parts of a list that was cut off: whole ones, and a start of the next. -/
theorem splitOn_of_cut {sep : α} {p l : List α} (h : p <+: l) : ∃ init last next post,
    p.splitOn sep = init ++ [last] ∧ l.splitOn sep = init ++ next :: post ∧ last <+: next := by
  simp only [List.splitOn_eq_splitOnP]
  induction p generalizing l with
  | nil =>
    obtain ⟨next, post, hl⟩ := List.exists_cons_of_ne_nil (List.splitOnP_ne_nil (· == sep) l)
    exact ⟨[], [], next, post, rfl, hl, List.nil_prefix⟩
  | cons a p ih =>
    obtain ⟨t, rfl⟩ := h
    obtain ⟨init, last, next, post, hp, hl, hlast⟩ := ih (List.prefix_append p t)
    rw [List.cons_append, List.splitOnP_cons_eq_if_modifyHead, List.splitOnP_cons_eq_if_modifyHead, hp, hl]
    split
    · exact ⟨[] :: init, last, next, post, rfl, rfl, hlast⟩
    · cases init with
      | nil => exact ⟨[], a :: last, a :: next, post, rfl, rfl, List.cons_prefix_cons.mpr ⟨rfl, hlast⟩⟩
      | cons i init => exact ⟨(a :: i) :: init, last, next, post, rfl, rfl, hlast⟩

/-- A part of a list that was cut off is the start of one of the whole list. -/
theorem prefix_of_mem_splitOn {sep : α} {p l part : List α} (h : p <+: l) (hp : part ∈ p.splitOn sep) :
    ∃ whole ∈ l.splitOn sep, part <+: whole := by
  obtain ⟨init, last, next, post, hsplit, hl, hlast⟩ := @splitOn_of_cut _ _ sep _ _ h
  rw [hsplit, List.mem_append, List.mem_singleton] at hp
  rw [hl]
  rcases hp with hp | rfl
  · exact ⟨part, List.mem_append_left _ hp, List.prefix_rfl⟩
  · exact ⟨next, List.mem_append_right _ List.mem_cons_self, hlast⟩

/-- A list without what meets `p` at its ends. -/
def trim (p : α → Bool) (l : List α) : List α := ((l.dropWhile p).reverse.dropWhile p).reverse

end

theorem trim_pad {p : α → Bool} {pre post l : List α} {a b : α} (hpre : ∀ c ∈ pre, p c) (hpost : ∀ c ∈ post, p c)
    (ha : p a = false) (hb : p b = false) : trim p (pre ++ (a :: (l ++ [b])) ++ post) = a :: (l ++ [b]) := by
  have hpost' : ∀ c ∈ post.reverse, p c := fun c hc => hpost c (List.mem_reverse.mp hc)
  rw [trim, List.append_assoc, List.dropWhile_append_of_pos hpre, List.cons_append,
    List.dropWhile_cons_of_neg (by simp [ha]), ← List.cons_append, List.reverse_append,
    List.dropWhile_append_of_pos hpost', List.reverse_cons, List.reverse_append, List.reverse_singleton,
    List.append_assoc, List.singleton_append, List.dropWhile_cons_of_neg (by simp [hb])]
  simp

/-- What was cut off starts as the whole does, if anything is left of it. -/
theorem head_trim_of_cut {p : α → Bool} {pad rest l : List α} {a : α} (hpad : ∀ b ∈ pad, p b) (ha : p a = false)
    (h : l <+: pad ++ a :: rest) : ∀ b, (trim p l).head? = some b → b = a := by
  intro b hb
  have htrim : trim p l <+: l.dropWhile p :=
    List.reverse_reverse (l.dropWhile p) ▸ List.reverse_prefix.mpr (List.dropWhile_suffix p)
  have hpadding {k : List α} (hk : ∀ b ∈ k, p b) (he : l = k) : False := by
    rw [he, List.dropWhile_eq_nil_iff.mpr hk, List.prefix_nil] at htrim
    rw [he, htrim] at hb
    cases hb
  rcases List.prefix_or_prefix_of_prefix h (List.prefix_append pad (a :: rest)) with hl | ⟨t, rfl⟩
  · exact (hpadding (fun b hb => hpad b (hl.subset hb)) rfl).elim
  · cases t with
    | nil => exact (hpadding hpad (List.append_nil pad)).elim
    | cons c t =>
      obtain ⟨rfl, -⟩ := List.cons_prefix_cons.mp ((List.prefix_append_right_inj pad).mp h)
      rw [List.dropWhile_append_of_pos hpad, List.dropWhile_cons_of_neg (by simp [ha])] at htrim
      obtain ⟨k, hk⟩ := List.head?_eq_some_iff.mp hb
      rw [hk] at htrim
      exact (List.cons_prefix_cons.mp htrim).1

/-- What was written piece by piece is read piece by piece. -/
theorem mapM_map {β : Type*} {write : α → β} {read : β → Option α} {l : List α}
    (h : ∀ a ∈ l, read (write a) = some a) : (l.map write).mapM read = some l := by
  induction l with
  | nil => rfl
  | cons a l ih =>
    rw [List.map_cons, List.mapM_cons, h a List.mem_cons_self, ih fun b hb => h b (List.mem_cons_of_mem a hb)]
    rfl

/-- In a list without two entries of a key. -/
theorem lookup_of_mem {β : Type*} [BEq α] [LawfulBEq α] {l : List (α × β)} {e : α × β} (hn : (l.map Prod.fst).Nodup)
    (h : e ∈ l) : l.lookup e.1 = some e.2 := by
  obtain ⟨pre, post, rfl⟩ := List.append_of_mem h
  refine List.lookup_eq_some_iff.mpr ⟨pre, post, rfl, fun f hf => ?_⟩
  rw [List.map_append, List.map_cons] at hn
  have hne := (List.nodup_append.mp hn).2.2 f.1 (List.mem_map_of_mem hf) e.1 List.mem_cons_self
  exact bne_iff_ne.mpr hne.symm

/-- A character that is no separator and stands in no part. -/
theorem notMem_intercalate {sep c : α} (hc : c ≠ sep) {ls : List (List α)} (h : ∀ l ∈ ls, c ∉ l) :
    c ∉ [sep].intercalate ls := by
  induction ls with
  | nil => exact List.not_mem_nil
  | cons l ls ih =>
    cases ls with
    | nil =>
      rw [List.intercalate_singleton]
      exact h l List.mem_cons_self
    | cons l' ls =>
      rw [List.intercalate_cons_cons, List.append_assoc, List.mem_append, List.singleton_append, List.mem_cons, not_or,
        not_or]
      exact ⟨h l List.mem_cons_self, hc, ih fun k hk => h k (List.mem_cons_of_mem l hk)⟩

/-- A field. -/
def writeField (eq : α) (f : List α × List α) : List α := f.1 ++ eq :: f.2

/-- Fields, with `sep` between them. -/
def writeFields (sep eq : α) (fs : List (List α × List α)) : List α := [sep].intercalate (fs.map (writeField eq))

@[simp] theorem writeFields_singleton (sep eq : α) (f : List α × List α) :
    writeFields sep eq [f] = writeField eq f := List.append_nil _

theorem writeFields_cons_cons (sep eq : α) (f g : List α × List α) (fs : List (List α × List α)) :
    writeFields sep eq (f :: g :: fs) = writeField eq f ++ sep :: writeFields sep eq (g :: fs) := by
  simp only [writeFields, List.map_cons, List.intercalate_cons_cons, List.append_assoc, List.singleton_append]

/-- A character that is no separator and stands in no field. -/
theorem notMem_writeFields {sep eq c : α} (hc : c ≠ sep) {fs : List (List α × List α)}
    (h : ∀ f ∈ fs, c ∉ writeField eq f) : c ∉ writeFields sep eq fs :=
  notMem_intercalate hc (List.forall_mem_map.mpr h)

variable [DecidableEq α]

theorem mapM_cut {eq : α} {fs : List (List α × List α)} (h : ∀ f ∈ fs, eq ∉ f.1) :
    (fs.map (writeField eq)).mapM (cut eq) = some fs := mapM_map fun f hf => cut_append (h f hf) _

/-- The fields of a text, if each has its `eq`. -/
def readFields (sep eq : α) (l : List α) : Option (List (List α × List α)) := (l.splitOn sep).mapM (cut eq)

/-- Characters that would be taken for others do not stand in the fields. -/
def Separated (sep eq : α) (fs : List (List α × List α)) : Prop :=
  ∀ f ∈ fs, sep ∉ writeField eq f ∧ eq ∉ f.1

theorem readFields_writeFields {sep eq : α} {fs : List (List α × List α)} (hne : fs ≠ []) (h : Separated sep eq fs) :
    readFields sep eq (writeFields sep eq fs) = some fs := by
  have hsep : ∀ l ∈ fs.map (writeField eq), sep ∉ l := by
    intro l hl
    obtain ⟨f, hf, rfl⟩ := List.mem_map.mp hl
    exact (h f hf).1
  rw [readFields, writeFields, List.splitOn_intercalate sep hsep (by simpa using hne)]
  exact mapM_cut fun f hf => (h f hf).2

end Linkkit
