import Mathlib.Data.List.Basic
import Mathlib.Tactic.Common

/-!
# C arrays and strings

Arrays of bytes whose accesses are checked: an operation that would leave its
array has no value (`none`), so that "the code stays inside its buffers" is
"the code has a value". A string argument is a `CString`, the bytes before
its terminator; in memory it is `CString.mem`.

* `splice`, `pwrite`: bytes stored in the middle of others;
* `memcpy`, `Buf.memcpy`, `Buf.memset`, `Buf.strncpy`: stores into an array;
* `strlen`, `strcmp`: reads that stop at a terminator, with what they give on
  a string followed by anything (`strlen_string`, `strcmp_string`);
* `snprintf`: a string formatted into an array; `printed`: one that is printed.
-/

namespace Linkkit

abbrev Byte := UInt8

/-- The bytes of a string literal, without its terminator. -/
def ascii (s : String) : List Byte := s.toList.map fun c => c.toNat.toUInt8

/-- `n` bytes zero. -/
abbrev zeros (n : Nat) : List Byte := List.replicate n 0

theorem getD_of_length_le {l : List Byte} {i : Nat} (h : l.length ≤ i) : l.getD i 0 = 0 := by
  rw [List.getD_eq_getElem?_getD, List.getElem?_eq_none h, Option.getD_none]

theorem getD_append_zeros (l : List Byte) (n i : Nat) : (l ++ zeros n).getD i 0 = l.getD i 0 := by
  simp only [List.getD_eq_getElem?_getD]
  by_cases h : i < l.length
  · rw [List.getElem?_append_left h]
  · rw [List.getElem?_append_right (by omega), List.getElem?_eq_none (by omega : l.length ≤ i),
      List.getElem?_replicate]
    split <;> rfl

/-! ## Strings -/

/-- A NUL-terminated string: the bytes before the terminator. -/
@[ext] structure CString where
  bytes : List Byte
  noNul : 0 ∉ bytes
deriving DecidableEq

namespace CString

/-- The string in memory, with its terminator. -/
def mem (s : CString) : List Byte := s.bytes ++ [0]

/-- The first `n` bytes of a string. -/
def take (n : Nat) (s : CString) : CString :=
  ⟨s.bytes.take n, fun h => s.noNul (List.mem_of_mem_take h)⟩

@[simp] theorem bytes_take (n : Nat) (s : CString) : (s.take n).bytes = s.bytes.take n := rfl

theorem length_take_le (n : Nat) (s : CString) : (s.take n).bytes.length ≤ n := by
  rw [bytes_take, List.length_take]; exact Nat.min_le_left _ _

/-- One string after another. -/
def append (s t : CString) : CString :=
  ⟨s.bytes ++ t.bytes, fun h => (List.mem_append.mp h).elim s.noNul t.noNul⟩

@[simp] theorem bytes_append (s t : CString) : (s.append t).bytes = s.bytes ++ t.bytes := rfl

theorem take_of_length_le {n : Nat} {s : CString} (h : s.bytes.length ≤ n) : s.take n = s :=
  CString.ext (List.take_of_length_le h)

end CString

/-- `strlen`: the number of bytes before the first NUL of an object. -/
def strlen : List Byte → Option Nat
  | [] => none
  | b :: bs => if b = 0 then some 0 else (strlen bs).map (· + 1)

/-- `strcmp` on two objects: the difference of the first two bytes that
differ, or zero if both end first. -/
def strcmp : List Byte → List Byte → Option Int
  | a :: as, b :: bs =>
    if a = b then if a = 0 then some 0 else strcmp as bs
    else some ((a.toNat : Int) - (b.toNat : Int))
  | _, _ => none

/-- The `n` bytes `strncpy` stores: those of the source up to its NUL, then
zeros. -/
def strncpyBytes : List Byte → Nat → Option (List Byte)
  | _, 0 => some []
  | [], _ + 1 => none
  | b :: bs, n + 1 => if b = 0 then some (zeros (n + 1)) else (strncpyBytes bs n).map (b :: ·)

/-- The text of a `printf` format whose conversions are `%s`, one for each
argument. -/
def format : List Byte → List (List Byte) → List Byte
  | b :: c :: fmt, arg :: args =>
    if b = 0x25 ∧ c = 0x73 then arg ++ format fmt args else b :: format (c :: fmt) (arg :: args)
  | fmt, _ => fmt

/-- The string that `snprintf` leaves in an array of `size` bytes. -/
def snprintf (size : Nat) (fmt : String) (args : List (List Byte)) : List Byte :=
  (format (ascii fmt) args).take (size - 1)

/-- What `printf ("%.*s", precision, s)` prints of the bytes from `s` on, as many as
the precision says if it is not negative, and none from a NUL on. -/
def printed (precision : Int) (s : List Byte) : Option (List Byte) :=
  if 0 ≤ precision ∧ precision ≤ s.length then some ((s.take precision.toNat).takeWhile (· ≠ 0))
  else (strlen s).map s.take

theorem strlen_string {s : List Byte} (hs : 0 ∉ s) (t : List Byte) :
    strlen (s ++ 0 :: t) = some s.length := by
  induction s with
  | nil => rfl
  | cons b s ih =>
    simp only [List.mem_cons, not_or] at hs
    simp only [List.cons_append, strlen, Ne.symm hs.1, if_false, ih hs.2, Option.map_some,
      List.length_cons]

theorem strlen_mem (s : CString) : strlen s.mem = some s.bytes.length := strlen_string s.noNul []

/-- `strlen` finds a NUL. -/
theorem mem_of_strlen {l : List Byte} {n : Nat} (h : strlen l = some n) : 0 ∈ l := by
  induction l generalizing n with
  | nil => cases h
  | cons b l ih =>
    rw [strlen] at h
    split at h
    · rename_i hb
      exact hb ▸ List.mem_cons_self
    · obtain ⟨m, hm, -⟩ := Option.map_eq_some_iff.mp h
      exact List.mem_cons_of_mem b (ih hm)

theorem strlen_eq_none {l : List Byte} (h : 0 ∉ l) : strlen l = none := by
  cases hs : strlen l with
  | none => rfl
  | some n => exact absurd (mem_of_strlen hs) h

theorem exists_strlen {l : List Byte} (h : 0 ∈ l) : ∃ n, strlen l = some n := by
  obtain ⟨s, t, rfl, hs⟩ := List.eq_append_cons_of_mem h
  exact ⟨_, strlen_string hs t⟩

theorem strlen_isSome {l : List Byte} : (strlen l).isSome = true ↔ 0 ∈ l := by
  constructor
  · intro h
    obtain ⟨n, hn⟩ := Option.isSome_iff_exists.mp h
    exact mem_of_strlen hn
  · intro h
    obtain ⟨n, hn⟩ := exists_strlen h
    rw [hn]
    rfl

/-- It prints bytes of `s` only, if there are as many or one of them is a NUL. -/
theorem printed_isSome {precision : Int} {s : List Byte} : (printed precision s).isSome = true ↔
    (0 ≤ precision ∧ precision ≤ s.length) ∨ 0 ∈ s := by
  unfold printed
  split
  · rename_i h
    exact iff_of_true rfl (.inl h)
  · rename_i h
    rw [Option.isSome_map, strlen_isSome, or_iff_right h]

/-- Two strings, whatever follows their terminators: `strcmp` has a value,
and it is zero exactly on equal strings. -/
theorem strcmp_string {s t : List Byte} (hs : 0 ∉ s) (ht : 0 ∉ t) (x y : List Byte) :
    ∃ d, strcmp (s ++ 0 :: x) (t ++ 0 :: y) = some d ∧ (d = 0 ↔ s = t) := by
  induction s generalizing t with
  | nil =>
    cases t with
    | nil => exact ⟨0, rfl, by simp⟩
    | cons b t =>
      simp only [List.mem_cons, not_or] at ht
      have hb : b.toNat ≠ 0 := fun h => ht.1 (UInt8.toNat_inj.mp h).symm
      refine ⟨0 - (b.toNat : Int), by simp [strcmp, ht.1], ?_⟩
      simp only [List.nil_eq, reduceCtorEq, iff_false]
      omega
  | cons a s ih =>
    simp only [List.mem_cons, not_or] at hs
    cases t with
    | nil =>
      have ha : a.toNat ≠ 0 := fun h => hs.1 (UInt8.toNat_inj.mp h).symm
      refine ⟨(a.toNat : Int) - 0, by simp [strcmp, Ne.symm hs.1], ?_⟩
      simp only [reduceCtorEq, iff_false]
      omega
    | cons b t =>
      simp only [List.mem_cons, not_or] at ht
      by_cases hab : a = b
      · subst hab
        obtain ⟨d, hd, hz⟩ := ih hs.2 ht.2
        exact ⟨d, by simp [strcmp, Ne.symm hs.1, hd], by simp [hz]⟩
      · have hne : a.toNat ≠ b.toNat := fun h => hab (UInt8.toNat_inj.mp h)
        refine ⟨(a.toNat : Int) - b.toNat, by simp [strcmp, hab], ?_⟩
        simp only [List.cons.injEq, hab, false_and, iff_false]
        omega

theorem strncpyBytes_string {s : List Byte} (hs : 0 ∉ s) (n : Nat) :
    strncpyBytes (s ++ [0]) n = some (s.take n ++ zeros (n - s.length)) := by
  induction s generalizing n with
  | nil => cases n <;> simp [strncpyBytes]
  | cons b s ih =>
    simp only [List.mem_cons, not_or] at hs
    cases n with
    | zero => simp [strncpyBytes]
    | succ n => simp [strncpyBytes, Ne.symm hs.1, ih hs.2]

/-- What `strncpy` stores of a string that an object begins with. -/
theorem strncpyBytes_of_nul {s : List Byte} (hs : 0 ∉ s) (t : List Byte) (n : Nat) :
    strncpyBytes (s ++ 0 :: t) n = some (s.take n ++ zeros (n - s.length)) := by
  induction s generalizing n with
  | nil => cases n <;> simp [strncpyBytes]
  | cons b s ih =>
    simp only [List.mem_cons, not_or] at hs
    cases n with
    | zero => simp [strncpyBytes]
    | succ n => simp [strncpyBytes, Ne.symm hs.1, ih hs.2]

/-! ## Bytes stored among others -/

/-- The bytes `dst` with `src` stored from `off` on. -/
def splice (dst : List Byte) (off : Nat) (src : List Byte) : List Byte :=
  dst.take off ++ src ++ dst.drop (off + src.length)

/-- The `n` bytes from `off` on. -/
def slice (bs : List Byte) (off n : Nat) : List Byte := (bs.drop off).take n

theorem length_splice {dst src : List Byte} {off : Nat} (h : off + src.length ≤ dst.length) :
    (splice dst off src).length = dst.length := by
  simp only [splice, List.length_append, List.length_take, List.length_drop]
  omega

theorem length_slice {bs : List Byte} {off n : Nat} (h : off + n ≤ bs.length) :
    (slice bs off n).length = n := by
  simp only [slice, List.length_take, List.length_drop]
  omega

@[simp] theorem splice_nil (dst : List Byte) (off : Nat) : splice dst off [] = dst := by
  simp [splice]

/-- A byte of a splice. -/
theorem splice_getElem? {dst src : List Byte} {off : Nat} (h : off + src.length ≤ dst.length)
    (k : Nat) : (splice dst off src)[k]? =
      if off ≤ k ∧ k < off + src.length then src[k - off]? else dst[k]? := by
  have hl : (dst.take off).length = off := by simp only [List.length_take]; omega
  simp only [splice, List.append_assoc]
  by_cases h₁ : k < off
  · rw [List.getElem?_append_left (by omega), List.getElem?_take_of_lt h₁, if_neg (by omega)]
  · rw [List.getElem?_append_right (by omega), hl]
    by_cases h₂ : k < off + src.length
    · rw [List.getElem?_append_left (by omega), if_pos (by omega)]
    · rw [List.getElem?_append_right (by omega), List.getElem?_drop, if_neg (by omega)]
      congr 1; omega

/-- A splice up to the end of what it stores. -/
theorem take_splice {dst src : List Byte} {off : Nat} (h : off ≤ dst.length) :
    (splice dst off src).take (off + src.length) = dst.take off ++ src := by
  rw [splice]
  exact List.take_left' (by rw [List.length_append, List.length_take, Nat.min_eq_left h])

/-- A splice right after the part `p` that was stored before. -/
theorem splice_prefix (p old src : List Byte) : splice (p ++ old.drop p.length) p.length src =
    p ++ src ++ old.drop (p ++ src).length := by
  rw [splice, List.take_left, ← List.drop_drop, List.drop_left, List.drop_drop, List.length_append]

/-! ## Arrays -/

/-- A C array of `n` bytes. -/
@[ext] structure Buf (n : Nat) where
  bytes : List Byte
  length_eq : bytes.length = n
deriving DecidableEq

/-- `memcpy (dst + off, src, len)` on two objects. -/
def memcpy (dst : List Byte) (off : Nat) (src : List Byte) (len : Nat) : Option (List Byte) :=
  if off + len ≤ dst.length ∧ len ≤ src.length then some (splice dst off (src.take len)) else none

namespace Buf

variable {n : Nat}

/-- An array of zeros. -/
def zero (n : Nat) : Buf n := ⟨zeros n, List.length_replicate⟩

/-- The array that begins with `l` and is zero after it. -/
def ofList (n : Nat) (l : List Byte) : Buf n :=
  ⟨l.take n ++ zeros (n - l.length), by
    simp only [List.length_append, List.length_take, List.length_replicate]; omega⟩

/-- `memcpy (dst + off, src, len)`. -/
def memcpy (dst : Buf n) (off : Nat) (src : List Byte) (len : Nat) : Option (Buf n) :=
  if h : off + len ≤ n ∧ len ≤ src.length then
    some ⟨splice dst.bytes off (src.take len), by
      rw [length_splice (by rw [List.length_take, dst.length_eq]; omega), dst.length_eq]⟩
  else none

/-- `memset (dst + off, v, len)`. -/
def memset (dst : Buf n) (off : Nat) (v : Byte) (len : Nat) : Option (Buf n) :=
  dst.memcpy off (List.replicate len v) len

/-- `strncpy (dst, src, len)`. -/
def strncpy (dst : Buf n) (src : List Byte) (len : Nat) : Option (Buf n) := do
  let bs ← strncpyBytes src len
  dst.memcpy 0 bs len

theorem bytes_ofList {l : List Byte} (h : l.length ≤ n) :
    (ofList n l).bytes = l ++ zeros (n - l.length) := by
  simp only [ofList, List.take_of_length_le h]

/-- An array filled from its start, with a terminator in it. -/
theorem bytes_ofList_lt {l : List Byte} (h : l.length < n) :
    (ofList n l).bytes = l ++ 0 :: zeros (n - l.length - 1) := by
  rw [bytes_ofList (Nat.le_of_lt h), ← List.replicate_succ]
  congr 2; omega

@[simp] theorem ofList_nil : ofList n [] = zero n := Buf.ext (by simp [ofList, zero])

theorem ofList_bytes (b : Buf n) : ofList n b.bytes = b :=
  Buf.ext (by rw [bytes_ofList (Nat.le_of_eq b.length_eq), b.length_eq]; simp)

/-- What a `memcpy` inside the array stores. -/
theorem memcpy_eq (dst : Buf n) {off len : Nat} {src : List Byte} (h : off + len ≤ n)
    (hs : len ≤ src.length) : ∃ b, dst.memcpy off src len = some b ∧
      b.bytes = splice dst.bytes off (src.take len) := by
  simp only [memcpy, h, hs, and_self, dite_true, Option.some.injEq]
  exact ⟨_, rfl, rfl⟩

/-- An array up to the end of what a `memcpy` stores. -/
theorem memcpy_take (dst : Buf n) (src : List Byte) {off len : Nat} (h : off + len ≤ n)
    (hs : len ≤ src.length) : ∃ b, dst.memcpy off src len = some b ∧
      b.bytes.take (off + len) = dst.bytes.take off ++ src.take len := by
  obtain ⟨b, hb, hv⟩ := memcpy_eq dst h hs
  have hl : (src.take len).length = len := by rw [List.length_take, Nat.min_eq_left hs]
  have ht : (splice dst.bytes off (src.take len)).take (off + (src.take len).length) = _ :=
    take_splice (by rw [dst.length_eq]; omega)
  rw [hl] at ht
  exact ⟨b, hb, by rw [hv, ht]⟩

/-- Data stored at the start of an array of zeros. -/
theorem memcpy_zero {src : List Byte} {len : Nat} (h : len ≤ n) (hs : len ≤ src.length) :
    (zero n).memcpy 0 src len = some (ofList n (src.take len)) := by
  obtain ⟨b, hb, hv⟩ := memcpy_eq (zero n) (show 0 + len ≤ n by omega) hs
  rw [hb, Option.some.injEq]
  refine Buf.ext (hv.trans ?_)
  rw [bytes_ofList (by rw [List.length_take]; omega)]
  simp [splice, zero]

/-- Data stored after what an array begins with. -/
theorem memcpy_ofList {l : List Byte} (src : List Byte) {len : Nat} (h : l.length + len ≤ n) (hs : len ≤ src.length) :
    (ofList n l).memcpy l.length src len = some (ofList n (l ++ src.take len)) := by
  have ht : (src.take len).length = len := by rw [List.length_take, Nat.min_eq_left hs]
  obtain ⟨b, hb, hv⟩ := memcpy_eq (ofList n l) h hs
  rw [hb, Option.some.injEq]
  refine Buf.ext (hv.trans ?_)
  rw [bytes_ofList (by omega), bytes_ofList (by rw [List.length_append, ht]; exact h), splice, List.take_left,
    List.drop_append, List.drop_of_length_le (by omega), List.nil_append, List.drop_replicate,
    List.length_append, ht]
  congr 2
  omega

/-- The string that an array of zeros was filled with. -/
theorem strlen_ofList {l : List Byte} (hl : 0 ∉ l) (h : l.length < n) :
    strlen (ofList n l).bytes = some l.length := by
  rw [bytes_ofList_lt h, strlen_string hl]

/-- Data stored after `p`, the rest of the array still what it was. -/
theorem memcpy_prefix (dst : Buf n) (src : List Byte) {old p : List Byte} {len : Nat}
    (hd : dst.bytes = p ++ old.drop p.length) (h : p.length + len ≤ n) (hs : len ≤ src.length) :
    ∃ b, dst.memcpy p.length src len = some b ∧
      b.bytes = p ++ src.take len ++ old.drop (p ++ src.take len).length := by
  have ht : (src.take len).length = len := by rw [List.length_take, Nat.min_eq_left hs]
  obtain ⟨b, hb, hv⟩ := memcpy_eq dst h hs
  exact ⟨b, hb, by rw [hv, hd, splice_prefix]⟩

/-- A string stored at the start of an array, without its terminator. -/
theorem memcpy_string (dst : Buf n) (s : CString) (rest : List Byte) (h : s.bytes.length ≤ n) :
    ∃ b, dst.memcpy 0 (s.bytes ++ 0 :: rest) s.bytes.length = some b ∧
      b.bytes = s.bytes ++ dst.bytes.drop s.bytes.length := by
  obtain ⟨b, hb, hv⟩ := memcpy_prefix dst (s.bytes ++ 0 :: rest) (show dst.bytes = [] ++ dst.bytes.drop 0 from rfl)
    (show 0 + s.bytes.length ≤ n by omega) (by rw [List.length_append]; omega)
  rw [List.take_left, List.nil_append] at hv
  exact ⟨b, hb, hv⟩

/-- The terminator of a string in an array. -/
theorem memset_nul (dst : Buf n) {old p : List Byte} (hd : dst.bytes = p ++ old.drop p.length)
    (h : p.length < n) :
    ∃ b, dst.memset p.length 0 1 = some b ∧ b.bytes = p ++ 0 :: old.drop (p.length + 1) := by
  obtain ⟨b, hb, hv⟩ := memcpy_prefix dst [0] hd (Nat.succ_le_of_lt h) (Nat.le_refl 1)
  exact ⟨b, hb, by rw [hv, List.length_append, List.append_assoc]; rfl⟩

/-- An array set to one byte throughout. -/
theorem memset_all (b : Buf n) (v : Byte) :
    b.memset 0 v n = some ⟨List.replicate n v, List.length_replicate⟩ := by
  have hl : n ≤ (List.replicate n v).length := Nat.le_of_eq List.length_replicate.symm
  obtain ⟨c, hc, hv⟩ := memcpy_eq b (show 0 + n ≤ n by omega) hl
  rw [memset, hc, Option.some.injEq]
  refine Buf.ext (hv.trans ?_)
  simp [splice, b.length_eq]

/-- A string copied into an array that has room for all that `strncpy`
stores. -/
theorem strncpy_isSome (dst : Buf n) (s : CString) {len : Nat} (h : len ≤ n) : ∃ b, dst.strncpy s.mem len = some b := by
  obtain ⟨b, hb, -⟩ := memcpy_eq dst (show 0 + len ≤ n by omega)
    (show len ≤ (s.bytes.take len ++ zeros (len - s.bytes.length)).length by
      simp only [List.length_append, List.length_take, List.length_replicate]
      omega)
  refine ⟨b, ?_⟩
  rw [strncpy, CString.mem, strncpyBytes_string s.noNul]
  exact hb

/-- A string copied to the start of an array. -/
theorem strncpy_of_nul (dst : Buf n) {s : List Byte} (hs : 0 ∉ s) (t : List Byte) {len : Nat} (h : len ≤ n) :
    ∃ b, dst.strncpy (s ++ 0 :: t) len = some b ∧
      b.bytes = s.take len ++ zeros (len - s.length) ++ dst.bytes.drop len := by
  have hl : (s.take len ++ zeros (len - s.length)).length = len := by
    simp only [List.length_append, List.length_take, List.length_replicate]
    omega
  obtain ⟨b, hb, hv⟩ := memcpy_eq dst (show 0 + len ≤ n by omega) (Nat.le_of_eq hl.symm)
  refine ⟨b, ?_, ?_⟩
  · rw [strncpy, strncpyBytes_of_nul hs]
    exact hb
  · rw [hv, List.take_of_length_le (Nat.le_of_eq hl), splice, List.take_zero, List.nil_append, hl, Nat.zero_add]

/-- A string copied to the start of an array of zeros. -/
theorem strncpy_zero (s : CString) {len : Nat} (h : len ≤ n) :
    (zero n).strncpy s.mem len = some (ofList n (s.take len).bytes) := by
  have hb : (s.bytes.take len ++ zeros (len - s.bytes.length)).length = len := by
    simp only [List.length_append, List.length_take, List.length_replicate]; omega
  have ht : (s.take len).bytes.length = min len s.bytes.length := by
    rw [CString.bytes_take, List.length_take]
  rw [strncpy, CString.mem, strncpyBytes_string s.noNul]
  show (zero n).memcpy 0 _ len = _
  rw [memcpy_zero h (by omega), Option.some.injEq, List.take_of_length_le (by omega)]
  refine Buf.ext ?_
  rw [bytes_ofList (by omega), bytes_ofList (by omega), hb, ht, List.append_assoc,
    ← List.replicate_add, CString.bytes_take]
  congr 2
  omega

end Buf

end Linkkit
