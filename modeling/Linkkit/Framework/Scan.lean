import Linkkit.Framework.Buf
import Mathlib.Data.List.Induction
import Mathlib.Data.Nat.Digits.Defs

/-!
# Numbers in text

How C reads and prints numbers. `digits` are the digits that `printf` prints,
`ofDigits` is the number that digits of either case denote, and `sscanf` gives
the values of the conversions of a format one after the other, until one of
them does not match. `fgetsLines` are the lines that `fgets` reads from a file.

* `ofDigits_digits`, `ofDigits_padded`: what was printed denotes the number;
* `scanWord_word`, `scanInt_digits`, `scanInt_decimal`: what the conversions
  read from a field that ends at white space;
* `fgetsLines_lines`: lines that are shorter than the buffer are read whole.
-/

namespace Linkkit

/-- `isspace`, in the C locale. -/
def isSpace (c : Byte) : Bool := c = 0x20 ∨ 0x09 ≤ c ∧ c ≤ 0x0D

/-- The value of a digit of either case, 16 for any other byte. -/
def digitVal (c : Byte) : Nat :=
  if 0x30 ≤ c ∧ c ≤ 0x39 then c.toNat - 0x30
  else if 0x41 ≤ c ∧ c ≤ 0x46 then c.toNat - 0x41 + 10
  else if 0x61 ≤ c ∧ c ≤ 0x66 then c.toNat - 0x61 + 10
  else 16

/-- A digit in base `b`. -/
def isDigit (b : Nat) (c : Byte) : Bool := digitVal c < b

/-- The number that digits denote. -/
def ofDigits (b : Nat) (ds : List Byte) : Nat := ds.foldl (fun n c => b * n + digitVal c) 0

/-- A digit below 16, in lower case. -/
def digitByte (d : Nat) : Byte := (Nat.digitChar d).toNat.toUInt8

/-- The digits of a number, in lower case. -/
def digits (b n : Nat) : List Byte := (Nat.toDigits b n).map fun c => c.toNat.toUInt8

/-- `toupper`. -/
def toUpper (c : Byte) : Byte := if 0x61 ≤ c ∧ c ≤ 0x7A then c - 0x20 else c

/-- `printf ("%0wX", n)`. -/
def paddedHex (w n : Nat) : List Byte := ((digits 16 n).leftpad w 0x30).map toUpper

/-- `printf ("%d", z)`. -/
def decimalText (z : Int) : List Byte := (if z < 0 then [0x2D] else []) ++ digits 10 z.natAbs

/-! ## Digits -/

theorem digitVal_digitByte {d : Nat} (h : d < 16) : digitVal (digitByte d) = d := by
  have key : ∀ d < 16, digitVal (digitByte d) = d := by decide
  exact key d h

theorem digitVal_toUpper {c : Byte} (h : digitVal c < 16) : digitVal (toUpper c) = digitVal c := by
  have key : ∀ n : Fin 256, digitVal (UInt8.ofNat n) < 16 →
      digitVal (toUpper (UInt8.ofNat n)) = digitVal (UInt8.ofNat n) := by decide +kernel
  have := key ⟨c.toNat, c.toNat_lt⟩
  rw [show UInt8.ofNat (⟨c.toNat, c.toNat_lt⟩ : Fin 256) = c from UInt8.ofNat_toNat] at this
  exact this h

theorem not_isSpace_of_isDigit {b : Nat} (hb : b ≤ 16) {c : Byte} (h : isDigit b c) : isSpace c = false := by
  have key : ∀ n : Fin 256, digitVal (UInt8.ofNat n) < 16 → isSpace (UInt8.ofNat n) = false := by decide +kernel
  have := key ⟨c.toNat, c.toNat_lt⟩
  rw [show UInt8.ofNat (⟨c.toNat, c.toNat_lt⟩ : Fin 256) = c from UInt8.ofNat_toNat] at this
  exact this (by have := of_decide_eq_true h; omega)

theorem isDigit_of_isSpace {b : Nat} (hb : b ≤ 16) {c : Byte} (h : isSpace c = true) : isDigit b c = false := by
  refine Bool.eq_false_iff.mpr fun hd => ?_
  rw [not_isSpace_of_isDigit hb hd] at h
  cases h

/-- The digits of a number are its leading digits and the last one. -/
theorem digits_of_le {b n : Nat} (hb : 1 < b) (h : b ≤ n) : digits b n = digits b (n / b) ++ [digitByte (n % b)] := by
  rw [digits, Nat.toDigits_of_base_le hb h, List.map_append]
  rfl

theorem digits_of_lt {b n : Nat} (h : n < b) : digits b n = [digitByte n] := by
  rw [digits, Nat.toDigits_of_lt_base h]
  rfl

theorem ofDigits_append_singleton (b : Nat) (ds : List Byte) (c : Byte) :
    ofDigits b (ds ++ [c]) = b * ofDigits b ds + digitVal c := by
  rw [ofDigits, List.foldl_append, List.foldl_cons, List.foldl_nil, ofDigits]

/-- The digits that are printed denote the number. -/
theorem ofDigits_digits {b : Nat} (hb : 1 < b) (hb' : b ≤ 16) (n : Nat) : ofDigits b (digits b n) = n := by
  induction n using Nat.strong_induction_on with
  | _ n ih =>
    by_cases h : n < b
    · rw [digits_of_lt h, ← List.nil_append [digitByte n], ofDigits_append_singleton,
        digitVal_digitByte (by omega)]
      exact Nat.zero_add n
    · have hmod := Nat.mod_lt n (by omega : b > 0)
      rw [digits_of_le hb (by omega), ofDigits_append_singleton, ih _ (Nat.div_lt_self (by omega) hb),
        digitVal_digitByte (by omega), Nat.div_add_mod]

theorem isDigit_of_mem_digits {b : Nat} (hb : 1 < b) (hb' : b ≤ 16) {n : Nat} {c : Byte} (h : c ∈ digits b n) :
    isDigit b c := by
  induction n using Nat.strong_induction_on with
  | _ n ih =>
    by_cases hn : n < b
    · rw [digits_of_lt hn, List.mem_singleton] at h
      subst h
      exact decide_eq_true (by rw [digitVal_digitByte (by omega)]; exact hn)
    · have hmod := Nat.mod_lt n (by omega : b > 0)
      rw [digits_of_le hb (by omega), List.mem_append, List.mem_singleton] at h
      rcases h with h | rfl
      · exact ih _ (Nat.div_lt_self (by omega) hb) h
      · exact decide_eq_true (by rw [digitVal_digitByte (by omega)]; exact hmod)

theorem digits_ne_nil (b n : Nat) : digits b n ≠ [] := by
  rw [digits, ne_eq, List.map_eq_nil_iff]
  exact Nat.toDigits_ne_nil

theorem length_digits_le {b n w : Nat} (hw : 0 < w) (h : n < b ^ w) : (digits b n).length ≤ w := by
  rw [digits, List.length_map]
  exact Nat.toDigits_length b n w hw h

/-- Only the digits of zero begin with one. -/
theorem head?_digits_ne {b n : Nat} (hb : 1 < b) (hb' : b ≤ 16) (hn : 0 < n) : (digits b n).head? ≠ some 0x30 := by
  induction n using Nat.strong_induction_on with
  | _ n ih =>
    by_cases h : n < b
    · have key : ∀ d < 16, 0 < d → digitByte d ≠ 0x30 := by decide
      rw [digits_of_lt h, List.head?_cons, ne_eq, Option.some.injEq]
      exact key n (by omega) hn
    · rw [digits_of_le hb (by omega), List.head?_append_of_ne_nil _ (digits_ne_nil b _)]
      exact ih _ (Nat.div_lt_self (by omega) hb) (Nat.div_pos (by omega) (by omega))

/-! ## Padding -/

theorem ofDigits_leftpad (b w : Nat) (ds : List Byte) : ofDigits b (ds.leftpad w 0x30) = ofDigits b ds := by
  have hz : ∀ n, (List.replicate n (0x30 : Byte)).foldl (fun n c => b * n + digitVal c) 0 = 0 := by
    intro n
    induction n with
    | zero => rfl
    | succ n ih =>
      rw [List.replicate_succ, List.foldl_cons]
      exact ih
  rw [List.leftpad, ofDigits, List.foldl_append, hz, ofDigits]

theorem ofDigits_map_toUpper {b : Nat} {ds : List Byte} (h : ∀ c ∈ ds, digitVal c < 16) :
    ofDigits b (ds.map toUpper) = ofDigits b ds := by
  induction ds using List.reverseRecOn with
  | nil => rfl
  | append_singleton ds c ih =>
    rw [List.map_append, List.map_singleton, ofDigits_append_singleton, ofDigits_append_singleton,
      ih fun c hc => h c (List.mem_append_left _ hc), digitVal_toUpper (h c (by simp))]

theorem digitVal_of_mem_leftpad {w : Nat} {ds : List Byte} (h : ∀ c ∈ ds, digitVal c < 16) {c : Byte}
    (hc : c ∈ ds.leftpad w 0x30) : digitVal c < 16 := by
  rcases List.mem_append.mp hc with hc | hc
  · rw [List.eq_of_mem_replicate hc]
    decide
  · exact h c hc

theorem isDigit_of_mem_paddedHex {w n : Nat} {c : Byte} (h : c ∈ paddedHex w n) : isDigit 16 c := by
  obtain ⟨c, hc, rfl⟩ := List.mem_map.mp h
  have hd := digitVal_of_mem_leftpad (fun c hc => of_decide_eq_true
    (isDigit_of_mem_digits (by omega) (Nat.le_refl 16) hc)) hc
  exact decide_eq_true (by rwa [digitVal_toUpper hd])

/-- The padded digits that are printed denote the number. -/
theorem ofDigits_paddedHex (w n : Nat) : ofDigits 16 (paddedHex w n) = n := by
  have hd : ∀ c ∈ digits 16 n, digitVal c < 16 := fun c hc =>
    of_decide_eq_true (isDigit_of_mem_digits (by omega) (Nat.le_refl 16) hc)
  rw [paddedHex, ofDigits_map_toUpper fun c hc => digitVal_of_mem_leftpad hd hc, ofDigits_leftpad,
    ofDigits_digits (by omega) (Nat.le_refl 16)]

theorem paddedHex_ne_nil (w n : Nat) : paddedHex w n ≠ [] := by
  rw [paddedHex, ne_eq, List.map_eq_nil_iff, List.leftpad, List.append_eq_nil_iff]
  exact fun h => digits_ne_nil 16 n h.2

theorem length_paddedHex_le {w n k : Nat} (hw : w ≤ k) (hk : 0 < k) (h : n < 16 ^ k) :
    (paddedHex w n).length ≤ k := by
  have := length_digits_le hk h
  rw [paddedHex, List.length_map, List.length_leftpad]
  omega

/-- A character that may stand in a line. -/
def InLine (c : Byte) : Prop := c ≠ 0 ∧ c ≠ 0x0A

theorem inLine_of_isDigit {b : Nat} (hb : b ≤ 16) {c : Byte} (h : isDigit b c) : InLine c := by
  have hc := Nat.lt_of_lt_of_le (of_decide_eq_true h) hb
  refine ⟨fun he => ?_, fun he => ?_⟩ <;>
  · subst he
    exact absurd hc (by decide)

theorem inLine_paddedHex (w n : Nat) : ∀ c ∈ paddedHex w n, InLine c := fun _ h =>
  inLine_of_isDigit (Nat.le_refl 16) (isDigit_of_mem_paddedHex h)

theorem inLine_decimalText (z : Int) : ∀ c ∈ decimalText z, InLine c := by
  intro c h
  rw [decimalText, List.mem_append] at h
  rcases h with h | h
  · split at h
    · obtain rfl := List.mem_singleton.mp h
      exact ⟨by decide, by decide⟩
    · cases h
  · exact inLine_of_isDigit (b := 10) (by omega) (isDigit_of_mem_digits (by omega) (by omega) h)

theorem length_decimalText_le {z : Int} (h : z.natAbs < 10000000000) : (decimalText z).length ≤ 11 := by
  have := length_digits_le (b := 10) (n := z.natAbs) (w := 10) (by omega) h
  rw [decimalText, List.length_append]
  split
  · rw [List.length_singleton]
    omega
  · rw [List.length_nil]
    omega

/-! ## `sscanf` -/

/-- A conversion: `%s`, or `%d` or `%x` of at most `width` characters. -/
inductive Conv where
  | word
  | int (base : Nat) (width : Option Nat)

/-- What a conversion stores. -/
inductive Scanned where
  | word (w : List Byte)
  | int (z : Int)
deriving DecidableEq

/-- `%s`: the next word, and the text behind it. -/
def scanWord (l : List Byte) : Option (List Byte × List Byte) :=
  let l := l.dropWhile isSpace
  let w := l.takeWhile (!isSpace ·)
  if w = [] then none else some (w, l.dropWhile (!isSpace ·))

/-- The sign of a number, and the text behind it. -/
def scanSign : List Byte → Int × List Byte
  | [] => (1, [])
  | c :: l => if c = 0x2B then (1, l) else if c = 0x2D then (-1, l) else (1, c :: l)

/-- The text behind the `0x` that a number in base 16 may begin with. -/
def skipHexPrefix (b : Nat) : List Byte → List Byte
  | c :: x :: l => if b = 16 ∧ c = 0x30 ∧ (x = 0x78 ∨ x = 0x58) then l else c :: x :: l
  | l => l

/-- `%d` or `%x`: the next number, and the text behind it. -/
def scanInt (b : Nat) (width : Option Nat) (l : List Byte) : Option (Int × List Byte) :=
  let l := l.dropWhile isSpace
  let n := width.getD l.length
  let f := skipHexPrefix b (scanSign (l.take n)).2
  let ds := f.takeWhile (isDigit b)
  if ds = [] then none
  else some ((scanSign (l.take n)).1 * ofDigits b ds, f.dropWhile (isDigit b) ++ l.drop n)

/-- A conversion on a text. -/
def Conv.scan : Conv → List Byte → Option (Scanned × List Byte)
  | word, l => (scanWord l).map fun r => (.word r.1, r.2)
  | int b width, l => (scanInt b width l).map fun r => (.int r.1, r.2)

/-- `sscanf`, with a format whose conversions are `cs` and that has white space
between them at most: what they store, up to the first that does not match. -/
def sscanf : List Conv → List Byte → List Scanned
  | [], _ => []
  | c :: cs, l =>
    match c.scan l with
    | none => []
    | some (v, rest) => v :: sscanf cs rest

theorem sscanf_cons {c : Conv} {l rest : List Byte} {v : Scanned} (cs : List Conv) (h : c.scan l = some (v, rest)) :
    sscanf (c :: cs) l = v :: sscanf cs rest := by
  rw [sscanf, h]

/-! ### A field and white space behind it -/

section

variable {s rest : List Byte}

/-- The text ends, or white space is next. -/
def AtSpace (l : List Byte) : Prop := ∀ c ∈ l.head?, isSpace c

theorem dropWhile_isSpace {c : Byte} (hs : ∀ c ∈ s, isSpace c) (hc : isSpace c = false) (l : List Byte) :
    (s ++ c :: l).dropWhile isSpace = c :: l := by
  rw [List.dropWhile_append_of_pos fun a ha => hs a ha, List.dropWhile_cons_of_neg (by rw [hc]; decide)]

/-- A run of characters that `p` accepts, up to white space. -/
theorem takeWhile_of_atSpace {p : Byte → Bool} (hp : ∀ c, isSpace c → p c = false) {w : List Byte}
    (hw : ∀ c ∈ w, p c) (hr : AtSpace rest) : (w ++ rest).takeWhile p = w ∧ (w ++ rest).dropWhile p = rest := by
  rw [List.takeWhile_append_of_pos fun a ha => hw a ha, List.dropWhile_append_of_pos fun a ha => hw a ha]
  cases rest with
  | nil => exact ⟨List.append_nil w, rfl⟩
  | cons c l =>
    have hc := hp c (hr c rfl)
    rw [List.takeWhile_cons_of_neg (by rw [hc]; decide), List.dropWhile_cons_of_neg (by rw [hc]; decide)]
    exact ⟨List.append_nil w, rfl⟩

/-- A word. -/
theorem scanWord_word {w : List Byte} (hs : ∀ c ∈ s, isSpace c) (hw : ∀ c ∈ w, isSpace c = false) (hne : w ≠ [])
    (hr : AtSpace rest) : scanWord (s ++ w ++ rest) = some (w, rest) := by
  obtain ⟨c, w', rfl⟩ := List.exists_cons_of_ne_nil hne
  obtain ⟨ht, hd⟩ := takeWhile_of_atSpace (p := (!isSpace ·)) (fun c hc => by rw [hc]; rfl)
    (fun c hc => by rw [hw c hc]; rfl) hr
  have hl : (s ++ c :: w' ++ rest).dropWhile isSpace = (c :: w') ++ rest := by
    rw [List.append_assoc, List.cons_append, dropWhile_isSpace hs (hw c List.mem_cons_self)]
  unfold scanWord
  dsimp only
  rw [hl, ht, hd, if_neg hne]

/-- A text with a sign or none. -/
theorem scanSign_append {b : Nat} (hb : b ≤ 16) {sign l : List Byte} {z : Int}
    (hsign : sign = [] ∧ z = 1 ∨ sign = [0x2D] ∧ z = -1) {c : Byte} (hc : isDigit b c) :
    scanSign (sign ++ c :: l) = (z, c :: l) := by
  rcases hsign with ⟨rfl, rfl⟩ | ⟨rfl, rfl⟩
  · have h1 : c ≠ 0x2B := by
      rintro rfl
      exact absurd (Nat.lt_of_lt_of_le (of_decide_eq_true hc) hb) (by decide)
    have h2 : c ≠ 0x2D := by
      rintro rfl
      exact absurd (Nat.lt_of_lt_of_le (of_decide_eq_true hc) hb) (by decide)
    rw [List.nil_append, scanSign, if_neg h1, if_neg h2]
  · rfl

/-- Digits do not begin with `0x`. -/
theorem skipHexPrefix_digits {b : Nat} (hb : b ≤ 16) {ds : List Byte} (hd : ∀ c ∈ ds, isDigit b c) (hne : ds ≠ [])
    (hr : AtSpace rest) : skipHexPrefix b (ds ++ rest) = ds ++ rest := by
  have hx : ∀ x : Byte, (x = 0x78 ∨ x = 0x58) → digitVal x = 16 ∧ isSpace x = false := by
    rintro x (rfl | rfl) <;> exact ⟨rfl, rfl⟩
  obtain ⟨c, ds, rfl⟩ := List.exists_cons_of_ne_nil hne
  cases ds with
  | nil =>
    cases rest with
    | nil => rfl
    | cons x l =>
      have hsp := hr x rfl
      refine if_neg fun h => ?_
      rw [(hx x h.2.2).2] at hsp
      cases hsp
  | cons x ds =>
    refine if_neg fun h => ?_
    have hdx := Nat.lt_of_lt_of_le (of_decide_eq_true (hd x (by simp))) hb
    rw [(hx x h.2.2).1] at hdx
    exact Nat.lt_irrefl 16 hdx

theorem atSpace_take (hr : AtSpace rest) (n : Nat) : AtSpace (rest.take n) := by
  cases n with
  | zero => exact fun c hc => by cases hc
  | succ n =>
    cases rest with
    | nil => exact hr
    | cons c l => exact hr

/-- Digits with a sign before them or none. -/
theorem scanInt_signed {b : Nat} (hb : b ≤ 16) {width : Option Nat} {sign ds : List Byte} {z : Int}
    (hs : ∀ c ∈ s, isSpace c) (hsign : sign = [] ∧ z = 1 ∨ sign = [0x2D] ∧ z = -1) (hd : ∀ c ∈ ds, isDigit b c)
    (hne : ds ≠ []) (hw : ∀ w ∈ width, (sign ++ ds).length ≤ w) (hr : AtSpace rest) :
    scanInt b width (s ++ (sign ++ ds) ++ rest) = some (z * ofDigits b ds, rest) := by
  obtain ⟨c, ds', hds⟩ := List.exists_cons_of_ne_nil hne
  have hc : isDigit b c := hd c (by rw [hds]; exact List.mem_cons_self)
  have hspace : (s ++ (sign ++ ds) ++ rest).dropWhile isSpace = (sign ++ ds) ++ rest := by
    rw [hds]
    rcases hsign with ⟨rfl, -⟩ | ⟨rfl, -⟩
    · rw [List.nil_append, List.append_assoc, List.cons_append, dropWhile_isSpace hs (not_isSpace_of_isDigit hb hc)]
    · rw [List.append_assoc, List.singleton_append, List.cons_append, dropWhile_isSpace hs (by decide)]
  obtain ⟨n, hn, hlen⟩ : ∃ n, width.getD ((sign ++ ds) ++ rest).length = n ∧ (sign ++ ds).length ≤ n := by
    refine ⟨_, rfl, ?_⟩
    cases width with
    | none =>
      rw [Option.getD_none, List.append_assoc, List.length_append, List.length_append, List.length_append]
      omega
    | some w => exact hw w rfl
  have htake : ((sign ++ ds) ++ rest).take n = sign ++ (ds ++ rest.take (n - (sign ++ ds).length)) := by
    rw [List.take_append, List.take_of_length_le hlen, List.append_assoc]
  have hdrop : ((sign ++ ds) ++ rest).drop n = rest.drop (n - (sign ++ ds).length) := by
    rw [List.drop_append, List.drop_of_length_le hlen, List.nil_append]
  generalize n - (sign ++ ds).length = k at htake hdrop
  have hr' := atSpace_take hr k
  have hscan : scanSign (sign ++ (ds ++ rest.take k)) = (z, ds ++ rest.take k) := by
    rw [hds]
    exact scanSign_append hb hsign hc
  obtain ⟨ht, hdw⟩ := takeWhile_of_atSpace (fun c hc => isDigit_of_isSpace hb hc) hd hr'
  unfold scanInt
  dsimp only
  rw [hspace, hn, htake, hdrop, hscan]
  dsimp only
  rw [skipHexPrefix_digits hb hd hne hr', ht, hdw, if_neg hne, List.take_append_drop]

/-- Digits of a number, padded or not. -/
theorem scanInt_digits {b : Nat} (hb : b ≤ 16) {width : Option Nat} {ds : List Byte} (hs : ∀ c ∈ s, isSpace c)
    (hd : ∀ c ∈ ds, isDigit b c) (hne : ds ≠ []) (hw : ∀ w ∈ width, ds.length ≤ w) (hr : AtSpace rest) :
    scanInt b width (s ++ ds ++ rest) = some ((ofDigits b ds : Int), rest) := by
  have h := scanInt_signed hb hs (.inl ⟨rfl, rfl⟩) hd hne hw hr
  rwa [Int.one_mul] at h

/-- A number that `%d` printed. -/
theorem scanInt_decimal (z : Int) (hs : ∀ c ∈ s, isSpace c) (hr : AtSpace rest) :
    scanInt 10 none (s ++ decimalText z ++ rest) = some (z, rest) := by
  have hd := ofDigits_digits (b := 10) (by omega) (by omega) z.natAbs
  have h : ∀ (sign : List Byte) (z' : Int), sign = [] ∧ z' = 1 ∨ sign = [0x2D] ∧ z' = -1 →
      scanInt 10 none (s ++ (sign ++ digits 10 z.natAbs) ++ rest) = some (z' * ofDigits 10 (digits 10 z.natAbs), rest) :=
    fun sign z' hsign => scanInt_signed (by omega) hs hsign
      (fun c hc => isDigit_of_mem_digits (by omega) (by omega) hc) (digits_ne_nil 10 _) (fun w hw => by cases hw) hr
  rw [decimalText]
  split
  · rw [h [0x2D] (-1) (.inr ⟨rfl, rfl⟩), hd]
    congr 2
    omega
  · rw [h [] 1 (.inl ⟨rfl, rfl⟩), hd]
    congr 2
    omega

end

/-! ## `fgets` -/

/-- What the calls of `fgets` with a buffer of `size` bytes give one after the
other, `line` being what the next of them has read so far. -/
def fgetsLines (size : Nat) (line : List Byte) : List Byte → List (List Byte)
  | [] => if line = [] then [] else [line]
  | c :: cs =>
    if c = 0x0A ∨ size ≤ line.length + 2 then (line ++ [c]) :: fgetsLines size [] cs
    else fgetsLines size (line ++ [c]) cs

/-- A file that is not empty has a line. -/
theorem fgetsLines_ne_nil {size : Nat} {line file : List Byte} (h : line ≠ [] ∨ file ≠ []) :
    fgetsLines size line file ≠ [] := by
  induction file generalizing line with
  | nil =>
    rw [fgetsLines, if_neg (h.resolve_right (not_not.mpr rfl))]
    exact List.cons_ne_nil _ _
  | cons c cs ih =>
    rw [fgetsLines]
    split
    · exact List.cons_ne_nil _ _
    · exact ih (.inl (List.append_ne_nil_of_right_ne_nil _ (List.cons_ne_nil _ _)))

theorem fgetsLines_line {size : Nat} {l : List Byte} (hn : 0x0A ∉ l) (line : List Byte)
    (hl : line.length + l.length + 1 < size) (rest : List Byte) :
    fgetsLines size line (l ++ 0x0A :: rest) = (line ++ l ++ [0x0A]) :: fgetsLines size [] rest := by
  induction l generalizing line with
  | nil => rw [List.nil_append, fgetsLines, if_pos (.inl rfl), List.append_nil]
  | cons c l ih =>
    rw [List.mem_cons, not_or] at hn
    rw [List.length_cons] at hl
    rw [List.cons_append, fgetsLines, if_neg fun h => h.elim (Ne.symm hn.1) (by omega),
      ih hn.2 _ (by rw [List.length_append, List.length_singleton]; omega), List.append_assoc line]
    rfl

/-- Lines that the buffer has room for. -/
theorem fgetsLines_lines {size : Nat} {ls : List (List Byte)} (h : ∀ l ∈ ls, 0x0A ∉ l ∧ l.length + 1 < size) :
    fgetsLines size [] (ls.flatMap (· ++ [0x0A])) = ls.map (· ++ [0x0A]) := by
  induction ls with
  | nil => rfl
  | cons l ls ih =>
    obtain ⟨⟨hn, hl⟩, h⟩ := List.forall_mem_cons.mp h
    rw [List.flatMap_cons, List.append_assoc, List.singleton_append, fgetsLines_line hn []
      (by rw [List.length_nil]; omega), ih h]
    rfl

end Linkkit
