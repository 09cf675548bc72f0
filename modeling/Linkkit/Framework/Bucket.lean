import Mathlib.Data.List.Basic
import Mathlib.Data.List.Nodup
import Mathlib.Data.List.Perm.Subperm
import Mathlib.Logic.Function.Basic

/-!
# Hash buckets walked from the front

A bucket is a list of slots, each empty or holding a key and its value. Its
operations walk it from the front and stop at the first empty slot: `find`
gives the value of the first slot with the key, `put` replaces that value or
fills the empty slot it stopped at (with the key `kept`, which may be a cut
form of the key it looked for), and `remove` empties every slot with the key
that it reaches, without moving the slots behind it.

So a slot behind an empty one is out of reach (`Hidden`). Nothing is hidden in
a bucket that is `Packed`, and `remove` leaves a packed bucket packed unless a
slot in use by another key follows the one it empties (`OpensGap`,
`packed_remove_iff`). What each operation does to the slots is stated on
membership (`mem_put_iff`, `mem_remove_iff`), for buckets of any length.

A `Table` is a bucket for every hash value; `Table.Exact t m` says that it
holds exactly the map `m`, each key in its own bucket, in one slot.
-/

namespace Linkkit

/-- A slot of a bucket: empty, or a key and its value. -/
abbrev Slot (κ ν : Type*) := Option (κ × ν)

namespace Bucket

variable {κ ν : Type*}

/-- The keys in use, in slot order. -/
def keys (b : List (Slot κ ν)) : List κ := b.filterMap (Option.map Prod.fst)

/-- The slots in use come before the empty ones. -/
def Packed (b : List (Slot κ ν)) : Prop := b.Pairwise fun s t => t.isSome → s.isSome

/-- No key has two slots. -/
def Distinct (b : List (Slot κ ν)) : Prop := (keys b).Nodup

/-- `k` has a slot behind an empty one. -/
def Hidden (k : κ) (b : List (Slot κ ν)) : Prop := k ∈ keys (b.dropWhile Option.isSome)

/-- A slot of `k` is followed by one of another key. -/
def OpensGap (k : κ) (b : List (Slot κ ν)) : Prop :=
  ∃ v k' v', [some (k, v), some (k', v')].Sublist b ∧ k' ≠ k

theorem mem_keys {k : κ} {b : List (Slot κ ν)} : k ∈ keys b ↔ ∃ v, some (k, v) ∈ b := by
  simp [keys, List.mem_filterMap]

@[simp] theorem keys_nil : keys ([] : List (Slot κ ν)) = [] := rfl
@[simp] theorem keys_none (b : List (Slot κ ν)) : keys (none :: b) = keys b := rfl
@[simp] theorem keys_some (e : κ × ν) (b : List (Slot κ ν)) : keys (some e :: b) = e.1 :: keys b := rfl

theorem keys_append (b₁ b₂ : List (Slot κ ν)) : keys (b₁ ++ b₂) = keys b₁ ++ keys b₂ :=
  List.filterMap_append

@[simp] theorem keys_replicate_none (n : ℕ) : keys (List.replicate n none : List (Slot κ ν)) = [] := by
  induction n with
  | zero => rfl
  | succ n ih => rw [List.replicate_succ, keys_none, ih]

/-- A bucket with every slot in use has as many keys as slots. -/
theorem length_keys {b : List (Slot κ ν)} : (keys b).length = b.length ↔ ∀ s ∈ b, s.isSome := by
  induction b with
  | nil => simp
  | cons s b ih =>
    cases s with
    | none =>
      have : (keys b).length ≤ b.length := List.length_filterMap_le ..
      simp only [keys_none, List.length_cons, List.mem_cons, forall_eq_or_imp, Option.isSome_none,
        Bool.false_eq_true, false_and, iff_false]
      omega
    | some e => simp [ih]

theorem Distinct.eq {b : List (Slot κ ν)} (h : Distinct b) {k : κ} {v v' : ν}
    (hv : some (k, v) ∈ b) (hv' : some (k, v') ∈ b) : v = v' := by
  induction b with
  | nil => cases hv
  | cons s b ih =>
    cases s with
    | none => exact ih h (by simpa using hv) (by simpa using hv')
    | some e =>
      simp only [Distinct, keys_some, List.nodup_cons] at h
      have hn : ∀ w, some (k, w) ∈ b → k ≠ e.1 := fun w hw he => h.1 (he ▸ mem_keys.mpr ⟨w, hw⟩)
      simp only [List.mem_cons, Option.some.injEq] at hv hv'
      rcases hv with rfl | hv
      · rcases hv' with hv' | hv'
        · exact (congrArg Prod.snd hv').symm
        · exact absurd rfl (hn _ hv')
      · rcases hv' with rfl | hv'
        · exact absurd rfl (hn _ hv)
        · exact ih h.2 hv hv'

/-- The slots up to the first empty one, the empty one and those behind it. -/
theorem hidden_append {b₁ : List (Slot κ ν)} (h₁ : ∀ s ∈ b₁, s.isSome) (b₂ : List (Slot κ ν)) (k : κ) :
    Hidden k (b₁ ++ none :: b₂) ↔ k ∈ keys b₂ := by
  rw [Hidden, List.dropWhile_append_of_pos h₁]
  rfl

theorem Packed.not_hidden {b : List (Slot κ ν)} (h : Packed b) (k : κ) : ¬ Hidden k b := by
  induction b with
  | nil => simp [Hidden]
  | cons s b ih =>
    cases s with
    | none =>
      obtain ⟨h₁, -⟩ := List.pairwise_cons.mp h
      show k ∉ keys b
      rw [mem_keys]
      rintro ⟨v, hv⟩
      exact absurd (h₁ _ hv rfl) (by simp)
    | some e => exact ih (List.pairwise_cons.mp h).2

section Ops

variable [DecidableEq κ]

/-- The value of the first slot with key `k`, up to the first empty slot. -/
def find (k : κ) : List (Slot κ ν) → Option ν
  | some (k', v) :: b => if k' = k then some v else find k b
  | _ => none

/-- Replace the value of the first slot with key `k`, or fill the first empty
slot with `kept` and `v`; no value if there is neither. -/
def put (k kept : κ) (v : ν) : List (Slot κ ν) → Option (List (Slot κ ν))
  | [] => none
  | none :: b => some (some (kept, v) :: b)
  | some (k', v') :: b =>
    if k' = k then some (some (k', v) :: b) else (put k kept v b).map (some (k', v') :: ·)

/-- Empty the slots with key `k`, up to the first empty slot. -/
def remove (k : κ) : List (Slot κ ν) → List (Slot κ ν)
  | some (k', v) :: b => (if k' = k then none else some (k', v)) :: remove k b
  | b => b

@[simp] theorem find_nil (k : κ) : find k ([] : List (Slot κ ν)) = none := rfl
@[simp] theorem find_none (k : κ) (b : List (Slot κ ν)) : find k (none :: b) = none := rfl
theorem find_some (k k' : κ) (v : ν) (b : List (Slot κ ν)) :
    find k (some (k', v) :: b) = if k' = k then some v else find k b := rfl

@[simp] theorem put_nil (k kept : κ) (v : ν) : put k kept v [] = none := rfl
@[simp] theorem put_none (k kept : κ) (v : ν) (b : List (Slot κ ν)) :
    put k kept v (none :: b) = some (some (kept, v) :: b) := rfl
theorem put_some (k kept k' : κ) (v v' : ν) (b : List (Slot κ ν)) :
    put k kept v (some (k', v') :: b) =
      if k' = k then some (some (k', v) :: b) else (put k kept v b).map (some (k', v') :: ·) := rfl

@[simp] theorem remove_nil (k : κ) : remove k ([] : List (Slot κ ν)) = [] := rfl
@[simp] theorem remove_none (k : κ) (b : List (Slot κ ν)) : remove k (none :: b) = none :: b := rfl
theorem remove_some (k k' : κ) (v : ν) (b : List (Slot κ ν)) :
    remove k (some (k', v) :: b) = (if k' = k then none else some (k', v)) :: remove k b := rfl

variable {k kept : κ} {v : ν} {b b' : List (Slot κ ν)}

/-! ## Finding -/

theorem mem_of_find (h : find k b = some v) : some (k, v) ∈ b := by
  induction b with
  | nil => cases h
  | cons s b ih =>
    rcases s with _ | ⟨k', v'⟩
    · cases h
    · rw [find_some] at h
      split at h
      · rename_i hk
        cases h; subst hk
        exact List.mem_cons_self
      · exact List.mem_cons_of_mem _ (ih h)

/-- A key that the walk does not find is hidden or not there. -/
theorem not_mem_of_find (h : find k b = none) (hh : ¬ Hidden k b) : k ∉ keys b := by
  induction b with
  | nil => simp
  | cons s b ih =>
    rcases s with _ | ⟨k', v'⟩
    · exact hh
    · rw [find_some] at h
      split at h
      · cases h
      · rename_i hk
        simp only [keys_some, List.mem_cons, not_or]
        exact ⟨Ne.symm hk, ih h hh⟩

theorem find_eq_none (h : k ∉ keys b) : find k b = none := by
  cases hf : find k b with
  | none => rfl
  | some v => exact absurd (mem_keys.mpr ⟨v, mem_of_find hf⟩) h

theorem find_eq_some_iff (hd : Distinct b) (hh : ¬ Hidden k b) :
    find k b = some v ↔ some (k, v) ∈ b := by
  refine ⟨mem_of_find, fun hv => ?_⟩
  cases hf : find k b with
  | none => exact absurd (mem_keys.mpr ⟨v, hv⟩) (not_mem_of_find hf hh)
  | some w => rw [hd.eq (mem_of_find hf) hv]

/-! ## Putting -/

/-- Where `put` stores: in the first slot of `k`, all before it in use, or in
the first empty slot, with no slot of `k` before it. -/
theorem put_cases (h : put k kept v b = some b') :
    ∃ b₁ b₂, (∀ s ∈ b₁, s.isSome) ∧ k ∉ keys b₁ ∧
      ((∃ v₀, b = b₁ ++ some (k, v₀) :: b₂ ∧ b' = b₁ ++ some (k, v) :: b₂) ∨
        (b = b₁ ++ none :: b₂ ∧ b' = b₁ ++ some (kept, v) :: b₂)) := by
  induction b generalizing b' with
  | nil => cases h
  | cons s b ih =>
    rcases s with _ | ⟨k', v'⟩
    · cases h
      exact ⟨[], b, by simp, by simp, .inr ⟨rfl, rfl⟩⟩
    · rw [put_some] at h
      split at h
      · rename_i hk
        cases h; subst hk
        exact ⟨[], b, by simp, by simp, .inl ⟨v', rfl, rfl⟩⟩
      · rename_i hk
        obtain ⟨c, hc, rfl⟩ := Option.map_eq_some_iff.mp h
        obtain ⟨b₁, b₂, h₁, hn, hor⟩ := ih hc
        refine ⟨some (k', v') :: b₁, b₂, by simpa using h₁, ?_, ?_⟩
        · simp only [keys_some, List.mem_cons, not_or]
          exact ⟨Ne.symm hk, hn⟩
        · rcases hor with ⟨v₀, rfl, rfl⟩ | ⟨rfl, rfl⟩
          · exact .inl ⟨v₀, rfl, rfl⟩
          · exact .inr ⟨rfl, rfl⟩

theorem length_put (h : put k kept v b = some b') : b'.length = b.length := by
  obtain ⟨b₁, b₂, -, -, ⟨v₀, rfl, rfl⟩ | ⟨rfl, rfl⟩⟩ := put_cases h <;> simp

theorem put_eq_none_iff : put k kept v b = none ↔ (∀ s ∈ b, s.isSome) ∧ k ∉ keys b := by
  induction b with
  | nil => simp
  | cons s b ih =>
    rcases s with _ | ⟨k', v'⟩
    · simp
    · rw [put_some]
      split
      · rename_i hk
        simp [hk]
      · rename_i hk
        simp [ih, Ne.symm hk]

/-- A slot after `put` is the one it wrote or was there before. -/
theorem mem_of_mem_put (h : put k kept v b = some b') {k' : κ} {v' : ν} (hm : some (k', v') ∈ b') :
    (v' = v ∧ (k' = kept ∨ k' = k ∧ k ∈ keys b)) ∨ some (k', v') ∈ b := by
  obtain ⟨b₁, b₂, -, -, ⟨v₀, rfl, rfl⟩ | ⟨rfl, rfl⟩⟩ := put_cases h <;>
    simp only [List.mem_append, List.mem_cons, Option.some.injEq, Prod.mk.injEq] at hm ⊢
  · rcases hm with hm | ⟨rfl, rfl⟩ | hm
    · exact .inr (.inl hm)
    · exact .inl ⟨rfl, .inr ⟨rfl, by simp [keys_append]⟩⟩
    · exact .inr (.inr (.inr hm))
  · rcases hm with hm | ⟨rfl, rfl⟩ | hm
    · exact .inr (.inl hm)
    · exact .inl ⟨rfl, .inl rfl⟩
    · exact .inr (.inr (.inr hm))

theorem Packed.put (hp : Packed b) (h : put k kept v b = some b') : Packed b' := by
  obtain ⟨b₁, b₂, h₁, -, ⟨v₀, rfl, rfl⟩ | ⟨rfl, rfl⟩⟩ := put_cases h
  all_goals
    simp only [Packed, List.pairwise_append, List.pairwise_cons] at hp ⊢
    refine ⟨hp.1, ⟨fun _ _ _ => rfl, hp.2.1.2⟩, fun s hs _ _ _ => h₁ s hs⟩

/-- What `put` stores of `k` is not in `b` yet, unless in the slot it writes. -/
def Missed (k kept : κ) (b : List (Slot κ ν)) : Prop :=
  Hidden kept b ∨ kept ≠ k ∧ kept ∈ keys b

/-- `put`, where no slot with the key it stores is out of its reach. -/
theorem mem_put_iff (hd : Distinct b) (hm : ¬ Missed k kept b) (hk : k ∈ keys b → kept = k)
    (h : put k kept v b = some b') : Distinct b' ∧ ∀ k' v', some (k', v') ∈ b' ↔
      (k' = kept ∧ v' = v) ∨ (k' ≠ kept ∧ some (k', v') ∈ b) := by
  simp only [Missed, not_or, not_and] at hm
  obtain ⟨hh, hc⟩ := hm
  -- either way one slot changes, and `kept` is in none of the others
  suffices key : ∃ b₁ s₀ b₂, b = b₁ ++ s₀ :: b₂ ∧ b' = b₁ ++ some (kept, v) :: b₂ ∧
      kept ∉ keys b₁ ∧ kept ∉ keys b₂ ∧ (∀ e, s₀ = some e → e.1 = kept) by
    obtain ⟨b₁, s₀, b₂, rfl, rfl, hn₁, hn₂, hs₀⟩ := key
    have hne : ∀ {c : List (Slot κ ν)}, kept ∉ keys c → ∀ k' v', some (k', v') ∈ c → k' ≠ kept :=
      fun hn k' v' hv he => hn (he ▸ mem_keys.mpr ⟨v', hv⟩)
    have hd₁ : (keys b₁ ++ keys b₂).Nodup := by
      rw [Distinct, keys_append] at hd
      refine hd.sublist (List.Sublist.append_left ?_ _)
      cases s₀ with
      | none => exact List.Sublist.refl _
      | some e => exact List.sublist_cons_self ..
    refine ⟨?_, fun k' v' => ?_⟩
    · rw [Distinct, keys_append, keys_some, List.nodup_middle, List.nodup_cons]
      exact ⟨by simp [hn₁, hn₂], hd₁⟩
    · simp only [List.mem_append, List.mem_cons, Option.some.injEq, Prod.mk.injEq]
      constructor
      · rintro (hv | ⟨rfl, rfl⟩ | hv)
        · exact .inr ⟨hne hn₁ _ _ hv, .inl hv⟩
        · exact .inl ⟨rfl, rfl⟩
        · exact .inr ⟨hne hn₂ _ _ hv, .inr (.inr hv)⟩
      · rintro (⟨rfl, rfl⟩ | ⟨hk', hv | hv | hv⟩)
        · exact .inr (.inl ⟨rfl, rfl⟩)
        · exact .inl hv
        · exact absurd (hs₀ _ hv.symm) hk'
        · exact .inr (.inr hv)
  obtain ⟨b₁, b₂, h₁, hn, ⟨v₀, rfl, rfl⟩ | ⟨rfl, rfl⟩⟩ := put_cases h
  · obtain rfl : kept = k := hk (by simp [keys_append])
    rw [Distinct, keys_append, keys_some, List.nodup_middle, List.nodup_cons] at hd
    simp only [List.mem_append, not_or] at hd
    exact ⟨b₁, some (kept, v₀), b₂, rfl, rfl, hn, hd.1.2, fun e he => by cases he; rfl⟩
  · refine ⟨b₁, none, b₂, rfl, rfl, ?_, (hidden_append h₁ b₂ kept).not.mp hh, fun e he => by cases he⟩
    by_cases hkk : kept = k
    · rwa [hkk]
    · have := hc hkk
      simp only [keys_append, List.mem_append, not_or] at this
      exact this.1

/-! ## After a put -/

section

variable {b₁ : List (Slot κ ν)} (h₁ : ∀ s ∈ b₁, s.isSome) (hn : k ∉ keys b₁) (b₂ : List (Slot κ ν))

include h₁ hn

theorem find_append_self : find k (b₁ ++ some (k, v) :: b₂) = some v := by
  induction b₁ with
  | nil => rw [List.nil_append, find_some, if_pos rfl]
  | cons s b₁ ih =>
    obtain ⟨e, rfl⟩ := Option.isSome_iff_exists.mp (h₁ s List.mem_cons_self)
    simp only [keys_some, List.mem_cons, not_or] at hn
    rw [List.cons_append, find_some, if_neg (Ne.symm hn.1)]
    exact ih (fun s hs => h₁ s (List.mem_cons_of_mem _ hs)) hn.2

theorem put_append_self (w : ν) :
    put k kept v (b₁ ++ some (k, w) :: b₂) = some (b₁ ++ some (k, v) :: b₂) := by
  induction b₁ with
  | nil => rw [List.nil_append, put_some, if_pos rfl]; rfl
  | cons s b₁ ih =>
    obtain ⟨e, rfl⟩ := Option.isSome_iff_exists.mp (h₁ s List.mem_cons_self)
    simp only [keys_some, List.mem_cons, not_or] at hn
    rw [List.cons_append, put_some, if_neg (Ne.symm hn.1),
      ih (fun s hs => h₁ s (List.mem_cons_of_mem _ hs)) hn.2]
    rfl

theorem find_remove_append_self : find k (remove k (b₁ ++ some (k, v) :: b₂)) = none := by
  induction b₁ with
  | nil => rw [List.nil_append, remove_some, if_pos rfl, find_none]
  | cons s b₁ ih =>
    obtain ⟨e, rfl⟩ := Option.isSome_iff_exists.mp (h₁ s List.mem_cons_self)
    simp only [keys_some, List.mem_cons, not_or] at hn
    rw [List.cons_append, remove_some, if_neg (Ne.symm hn.1), find_some, if_neg (Ne.symm hn.1)]
    exact ih (fun s hs => h₁ s (List.mem_cons_of_mem _ hs)) hn.2

end

/-- A key that `put` stored as it is: the first slot with it has the value, the
same `put` changes nothing, and `remove` leaves no slot that `find` reaches. -/
theorem found_after_put (h : put k k v b = some b') :
    find k b' = some v ∧ put k k v b' = some b' ∧ find k (remove k b') = none := by
  obtain ⟨b₁, b₂, h₁, hn, hor⟩ := put_cases h
  obtain rfl : b' = b₁ ++ some (k, v) :: b₂ := hor.elim (fun ⟨v₀, _, e⟩ => e) fun ⟨_, e⟩ => e
  exact ⟨find_append_self h₁ hn b₂, put_append_self h₁ hn b₂ v, find_remove_append_self h₁ hn b₂⟩

/-- A key that `put` stored in another form is not found. -/
theorem not_found_after_put (h : put k kept v b = some b') (hk : kept ≠ k) (hn : k ∉ keys b) :
    find k b' = none := by
  refine find_eq_none fun hm => ?_
  obtain ⟨w, hw⟩ := mem_keys.mp hm
  rcases mem_of_mem_put h hw with ⟨-, he | ⟨-, he⟩⟩ | hb
  · exact hk he.symm
  · exact hn he
  · exact hn (mem_keys.mpr ⟨w, hb⟩)

/-- A `put` of another key leaves what is found. -/
theorem find_put_of_ne (h : put k kept v b = some b') {k' : κ} {w : ν} (hk : k' ≠ k)
    (hf : find k' b = some w) : find k' b' = some w := by
  induction b generalizing b' with
  | nil => cases hf
  | cons s b ih =>
    rcases s with _ | ⟨l, x⟩
    · cases hf
    · rw [put_some] at h
      rw [find_some] at hf
      split at h
      · rename_i hl
        cases h
        rwa [find_some, if_neg (by rw [hl]; exact Ne.symm hk)] at *
      · obtain ⟨c, hc, rfl⟩ := Option.map_eq_some_iff.mp h
        rw [find_some]
        split at hf
        · rename_i hl
          rw [if_pos hl]
          exact hf
        · rename_i hl
          rw [if_neg hl]
          exact ih hc hf

/-- A `put` of another key stores no slot of `k'`. -/
theorem not_mem_keys_put (h : put k kept v b = some b') {k' : κ} (hk : k' ≠ k) (hkept : k' ≠ kept)
    (hn : k' ∉ keys b) : k' ∉ keys b' := fun hm => by
  obtain ⟨w, hw⟩ := mem_keys.mp hm
  rcases mem_of_mem_put h hw with ⟨-, he | ⟨he, -⟩⟩ | hb
  · exact hkept he
  · exact hk he
  · exact hn (mem_keys.mpr ⟨w, hb⟩)

/-! ## Removing -/

theorem length_remove (k : κ) (b : List (Slot κ ν)) : (remove k b).length = b.length := by
  induction b with
  | nil => rfl
  | cons s b ih =>
    rcases s with _ | ⟨k', v'⟩
    · rfl
    · rw [remove_some, List.length_cons, ih, List.length_cons]

theorem keys_remove_sublist (k : κ) (b : List (Slot κ ν)) : (keys (remove k b)).Sublist (keys b) := by
  induction b with
  | nil => exact List.Sublist.refl _
  | cons s b ih =>
    rcases s with _ | ⟨k', v'⟩
    · exact List.Sublist.refl _
    · rw [remove_some]
      split
      · exact List.Sublist.cons _ ih
      · exact ih.cons_cons _

theorem Distinct.remove (hd : Distinct b) (k : κ) : Distinct (remove k b) :=
  hd.sublist (keys_remove_sublist k b)

theorem mem_of_mem_remove {k' : κ} {v' : ν} (h : some (k', v') ∈ remove k b) : some (k', v') ∈ b := by
  induction b with
  | nil => exact h
  | cons s b ih =>
    rcases s with _ | ⟨l, w⟩
    · exact h
    · simp only [remove_some, List.mem_cons] at h ⊢
      rcases h with h | h
      · split at h
        · cases h
        · exact .inl h
      · exact .inr (ih h)

theorem mem_remove_of_ne {k' : κ} {v' : ν} (hne : k' ≠ k) (h : some (k', v') ∈ b) :
    some (k', v') ∈ remove k b := by
  induction b with
  | nil => exact h
  | cons s b ih =>
    rcases s with _ | ⟨l, w⟩
    · exact h
    · simp only [List.mem_cons, Option.some.injEq, Prod.mk.injEq] at h
      simp only [remove_some, List.mem_cons]
      rcases h with ⟨rfl, rfl⟩ | h
      · exact .inl (by rw [if_neg hne])
      · exact .inr (ih h)

/-- A key that is not hidden is gone after `remove`. -/
theorem not_mem_remove (hh : ¬ Hidden k b) : k ∉ keys (remove k b) := by
  induction b with
  | nil => simp
  | cons s b ih =>
    rcases s with _ | ⟨k', v'⟩
    · exact hh
    · have ih := ih hh
      rw [remove_some]
      split
      · exact ih
      · rename_i hk
        simp only [keys_some, List.mem_cons, not_or]
        exact ⟨Ne.symm hk, ih⟩

theorem mem_remove_iff (hh : ¬ Hidden k b) {k' : κ} {v' : ν} :
    some (k', v') ∈ remove k b ↔ k' ≠ k ∧ some (k', v') ∈ b :=
  ⟨fun h => ⟨fun he => not_mem_remove hh (mem_keys.mpr ⟨v', he ▸ h⟩), mem_of_mem_remove h⟩,
    fun h => mem_remove_of_ne h.1 h.2⟩

/-- Removing a key that another one follows puts that one out of reach. -/
theorem find_remove_of_opensGap (hd : Distinct b) (hg : OpensGap k b) :
    ∃ k' v', some (k', v') ∈ b ∧ k' ≠ k ∧ find k' (remove k b) = none := by
  obtain ⟨v, k', v', hs, hne⟩ := hg
  refine ⟨k', v', hs.subset (by simp), hne, ?_⟩
  induction b with
  | nil => cases hs
  | cons s b ih =>
    rcases s with _ | ⟨l, w⟩
    · rfl
    · simp only [Distinct, keys_some, List.nodup_cons] at hd
      by_cases hl : l = k
      · simp [remove_some, hl]
      · have hs' : [some (k, v), some (k', v')].Sublist b := by
          cases hs with
          | cons _ h => exact h
          | cons_cons _ h => exact absurd rfl hl
        have hlk' : l ≠ k' := fun he => hd.1 (mem_keys.mpr ⟨v', he ▸ hs'.subset (by simp)⟩)
        simp only [remove_some, hl, if_false, find_some, hlk']
        exact ih hd.2 hs'

theorem packed_remove_iff (hp : Packed b) (hd : Distinct b) :
    Packed (remove k b) ↔ ¬ OpensGap k b := by
  constructor
  · intro hpr hg
    obtain ⟨k', v', hm, hne, hf⟩ := find_remove_of_opensGap hd hg
    rw [(find_eq_some_iff (hd.remove k) (hpr.not_hidden k')).mpr (mem_remove_of_ne hne hm)] at hf
    cases hf
  · intro hg
    induction b with
    | nil => exact hp
    | cons s b ih =>
      obtain ⟨h₁, h₂⟩ := List.pairwise_cons.mp hp
      rcases s with _ | ⟨l, w⟩
      · exact hp
      · simp only [Distinct, keys_some, List.nodup_cons] at hd
        have hg' : ¬ OpensGap k b := fun ⟨v, k', v', hs, hne⟩ => hg ⟨v, k', v', hs.cons _, hne⟩
        refine List.pairwise_cons.mpr ⟨fun s hs hsome => ?_, ih h₂ hd.2 hg'⟩
        by_cases hl : l = k
        · -- nothing in use may follow the slot that is emptied
          obtain ⟨⟨k', v'⟩, rfl⟩ := Option.isSome_iff_exists.mp hsome
          have hm := mem_of_mem_remove hs
          refine absurd ⟨w, k', v', ?_, fun he => hd.1 ?_⟩ hg
          · rw [hl]; exact (List.singleton_sublist.mpr hm).cons_cons _
          · rw [hl, ← he]; exact mem_keys.mpr ⟨v', hm⟩
        · simp [hl]

end Ops

end Bucket

end Linkkit
