import Linkkit.Framework.Int
import Linkkit.Framework.Scan
import Mathlib.Algebra.Group.Nat.Defs

/-!
# Internet addresses

An IPv4 address is its four bytes in the order of the network. `inetNtoa` is
its text, and `inetAton` reads the texts that `inet_aton` accepts: up to four
numbers, in decimal, octal or hexadecimal, the last of which fills the bytes
that are left. `inetAton_inetNtoa`: the text of an address denotes it.
-/

namespace Linkkit

/-- `struct in_addr`: the bytes in memory. -/
@[ext] structure InAddr where
  a : Byte
  b : Byte
  c : Byte
  d : Byte
deriving DecidableEq

namespace InAddr

/-- `INADDR_ANY`. -/
def any : InAddr := ⟨0, 0, 0, 0⟩

def bytes (ip : InAddr) : List Byte := [ip.a, ip.b, ip.c, ip.d]

/-- The address with these bytes, zeros after them if they are fewer. -/
def ofBytes (bs : List Byte) : InAddr := ⟨bs.getD 0 0, bs.getD 1 0, bs.getD 2 0, bs.getD 3 0⟩

@[simp] theorem ofBytes_bytes (ip : InAddr) : ofBytes ip.bytes = ip := rfl

end InAddr

/-- `inet_ntoa`: the text, without its terminator. -/
def inetNtoa (ip : InAddr) : List Byte :=
  digits 10 ip.a.toNat ++ 0x2E :: (digits 10 ip.b.toNat ++ 0x2E :: (digits 10 ip.c.toNat ++ 0x2E ::
    digits 10 ip.d.toNat))

/-- The base of a number written as in C, and its digits with what follows. -/
def numberBase (l : List Byte) : Nat × List Byte :=
  if l.head? ≠ some 0x30 then (10, l)
  else if (l.tail.head? = some 0x78 ∨ l.tail.head? = some 0x58) ∧ (l.drop 2).head?.any (isDigit 16) then
    (16, l.drop 2)
  else (8, l)

/-- `strtoul (l, &rest, 0)` of a text that begins with a digit: the number, and
the text behind it. -/
def strtoul (l : List Byte) : Nat × List Byte :=
  let r := numberBase l
  (ofDigits r.1 (r.2.takeWhile (isDigit r.1)), r.2.dropWhile (isDigit r.1))

/-- `inet_aton` from the next number on, `pp` being the bytes before it and
`left` the dots that may follow. -/
def inetAtonFrom : Nat → List Byte → List Byte → Option InAddr
  | left, pp, cp =>
    if !(cp.head?.any (isDigit 10)) then none
    else
      let val := (strtoul cp).1
      let cp := (strtoul cp).2
      if val > 0xffffffff then none
      else if cp.head? = some 0x2E then
        match left with
        | 0 => none
        | left + 1 => if val > 0xff then none else inetAtonFrom left (pp ++ [UInt8.ofNat val]) cp.tail
      else if !(cp.head?.all isSpace) then none
      -- the last number fills the bytes that are left
      else if 0x100 ^ (4 - pp.length) ≤ val then none
      else some (.ofBytes (pp ++ beBytes (4 - pp.length) val))

/-- `inet_aton`: the address, if the text is one. -/
def inetAton (cp : List Byte) : Option InAddr := inetAtonFrom 3 [] cp

example : inetAton (ascii "127.1") = some ⟨127, 0, 0, 1⟩ := by decide +kernel

/-! ## The text of an address -/

/-- A text that no number goes on with. -/
def EndsNumber (l : List Byte) : Prop := l.head? = none ∨ l.head? = some 0x2E

theorem takeWhile_of_endsNumber {b : Nat} (hb : b ≤ 16) {ds rest : List Byte} (hd : ∀ c ∈ ds, isDigit b c)
    (hr : EndsNumber rest) : (ds ++ rest).takeWhile (isDigit b) = ds ∧ (ds ++ rest).dropWhile (isDigit b) = rest := by
  rw [List.takeWhile_append_of_pos fun a ha => hd a ha, List.dropWhile_append_of_pos fun a ha => hd a ha]
  cases rest with
  | nil => exact ⟨List.append_nil ds, rfl⟩
  | cons c l =>
    have hc : isDigit b c = false := by
      rcases hr with h | h
      · cases h
      · obtain rfl := Option.some.inj h
        exact decide_eq_false (Nat.not_lt.mpr hb)
    rw [List.takeWhile_cons_of_neg (by rw [hc]; decide), List.dropWhile_cons_of_neg (by rw [hc]; decide)]
    exact ⟨List.append_nil ds, rfl⟩

/-- A number that was printed is read again. -/
theorem strtoul_digits (n : Nat) {rest : List Byte} (hr : EndsNumber rest) :
    strtoul (digits 10 n ++ rest) = (n, rest) := by
  rcases Nat.eq_zero_or_pos n with rfl | hn
  · have hb : numberBase (digits 10 0 ++ rest) = (8, [0x30] ++ rest) := by
      refine (if_neg (not_not.mpr rfl)).trans (if_neg ?_)
      rintro ⟨h, -⟩
      rcases hr with hr | hr <;> rcases h with h | h <;> exact absurd (hr.symm.trans h) (by decide)
    have hzero : ∀ c ∈ [(0x30 : Byte)], isDigit 8 c := fun c hc => by
      rw [List.mem_singleton.mp hc]
      rfl
    obtain ⟨ht, hd⟩ := takeWhile_of_endsNumber (by omega) hzero hr
    rw [strtoul, hb]
    dsimp only
    rw [ht, hd]
    rfl
  · have hb : numberBase (digits 10 n ++ rest) = (10, digits 10 n ++ rest) := by
      rw [numberBase, if_pos]
      rw [List.head?_append_of_ne_nil _ (digits_ne_nil 10 n)]
      exact head?_digits_ne (by omega) (by omega) hn
    obtain ⟨ht, hd⟩ := takeWhile_of_endsNumber (b := 10) (by omega)
      (fun c hc => isDigit_of_mem_digits (n := n) (by omega) (by omega) hc) hr
    rw [strtoul, hb]
    dsimp only
    rw [ht, hd, ofDigits_digits (by omega) (by omega)]

theorem head?_digits (n : Nat) (rest : List Byte) : (digits 10 n ++ rest).head?.any (isDigit 10) = true := by
  obtain ⟨c, l, h⟩ := List.exists_cons_of_ne_nil (digits_ne_nil 10 n)
  rw [h, List.cons_append, List.head?_cons, Option.any_some]
  exact isDigit_of_mem_digits (n := n) (by omega) (by omega) (by rw [h]; exact List.mem_cons_self)

/-- A byte and a dot. -/
theorem inetAtonFrom_dot (left : Nat) (pp : List Byte) (x : Byte) (rest : List Byte) :
    inetAtonFrom (left + 1) pp (digits 10 x.toNat ++ 0x2E :: rest) = inetAtonFrom left (pp ++ [x]) rest := by
  have hx := x.toNat_lt
  rw [inetAtonFrom, head?_digits, strtoul_digits x.toNat (.inr rfl)]
  dsimp only
  rw [if_neg (by decide), if_neg (by omega), List.head?_cons, if_pos rfl, if_neg (by omega), UInt8.ofNat_toNat]
  rfl

/-- The last byte. -/
theorem inetAtonFrom_last (left : Nat) {pp : List Byte} (hp : pp.length = 3) (x : Byte) :
    inetAtonFrom left pp (digits 10 x.toNat) = some (.ofBytes (pp ++ [x])) := by
  have hx := x.toNat_lt
  have hs : strtoul (digits 10 x.toNat ++ []) = (x.toNat, []) := strtoul_digits x.toNat (.inl rfl)
  have hh := head?_digits x.toNat []
  rw [List.append_nil] at hs hh
  rw [inetAtonFrom, hh, hs, hp]
  dsimp only
  rw [if_neg (by decide), if_neg (by omega), if_neg (by decide), if_neg (by decide), if_neg (by omega)]
  congr 3
  show [UInt8.ofNat (x.toNat >>> 0)] = [x]
  rw [Nat.shiftRight_zero, UInt8.ofNat_toNat]

/-- The text of an address denotes the address. -/
theorem inetAton_inetNtoa (ip : InAddr) : inetAton (inetNtoa ip) = some ip := by
  rw [inetAton, inetNtoa, inetAtonFrom_dot, inetAtonFrom_dot, inetAtonFrom_dot, inetAtonFrom_last _ rfl]
  rfl

theorem length_inetNtoa_le (ip : InAddr) : (inetNtoa ip).length ≤ 15 := by
  have h (x : Byte) : (digits 10 x.toNat).length ≤ 3 :=
    length_digits_le (by omega) (Nat.lt_of_lt_of_le x.toNat_lt (by decide))
  have ha := h ip.a
  have hb := h ip.b
  have hc := h ip.c
  have hd := h ip.d
  simp only [inetNtoa, List.length_append, List.length_cons]
  omega

theorem zero_notMem_inetNtoa (ip : InAddr) : 0 ∉ inetNtoa ip := by
  have h (x : Byte) : 0 ∉ digits 10 x.toNat := fun h0 =>
    absurd (isDigit_of_mem_digits (by omega) (by omega) h0) (by decide)
  simp [inetNtoa, h]

end Linkkit
