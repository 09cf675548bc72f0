import Linkkit.Framework.Buf

/-!
# Command lines

How a POSIX shell reads a line, in the POSIX locale: its bytes as words and
operators (`lex`), and these as simple commands (`parse`). `commands` gives the
words of the commands that the line runs. It has no value where the line alone
does not say what they are (an expansion, which depends on the variables, the
commands and the files there are, or a reading that POSIX leaves open), and none
for a redirection, a compound command or a line that is no command line.

* `short_lex`: what a line is read as is no longer than the line;
* `lex_plain`, `lex_self`: plain bytes (`Plain`) are read as the word that they
  are, and no others;
* `commands_line`, `commands_line_some`: so a line of plain words carries its last
  argument as it is given exactly if that is plain.
-/

namespace Linkkit.Shell

/-- A word, byte by byte, with the bytes that are quoted marked. -/
abbrev Marked := List (Byte × Bool)

/-- Bytes outside quotes. -/
def unquoted (w : List Byte) : Marked := w.map (·, false)

@[simp] theorem unquoted_fst (w : List Byte) : (unquoted w).map Prod.fst = w := by
  simp [unquoted, Function.comp_def]

theorem unquoted_cons (b : Byte) (w : List Byte) : unquoted (b :: w) = (b, false) :: unquoted w := rfl

/-- What an unquoted byte is to the lexer. -/
inductive ByteClass where
  | blank
  | separator
  | single
  | double
  | backslash
  | unread
  | ordinary
deriving DecidableEq

def classOf (b : Byte) : ByteClass :=
  if b ∈ ascii " \t" then .blank
  else if b ∈ ascii ";&|\n" then .separator
  else if b = 0x27 then .single
  else if b = 0x22 then .double
  else if b = 0x5c then .backslash
  else if b ∈ ascii "()<>$`" then .unread
  else .ordinary

/-- A bracket expression behind its `[`: `]` closes it, not in the first place
and not behind a slash. -/
def bracket (w : Marked) : Bool :=
  let w := if w.head? = some (0x21, false) then w.tail else w
  ((w.takeWhile fun b => b.1 ≠ 0x2f).drop 1).contains (0x5d, false)

/-- The word is a pattern, which stands for the files it matches. -/
def pattern : Marked → Bool
  | [] => false
  | (b, quoted) :: w =>
    (!quoted && (b = 0x2a || b = 0x3f || (b = 0x5b && bracket w))) || pattern w

/-- The word is a pattern or starts with a tilde. -/
def expands (w : Marked) : Bool := w.head? = some (0x7e, false) || pattern w

/-! ## Tokens -/

/-- A word, an operator byte, or the same byte once more right behind it, as in
`&&`. -/
inductive Token where
  | word (w : List Byte)
  | op (b : Byte)
  | again (b : Byte)
deriving DecidableEq

/-- Where the lexer is: outside quotes, behind the operator byte `prev` if there is
one, inside of them, or in a comment. -/
inductive Mode where
  | plain (prev : Option Byte)
  | single
  | double
  | comment

/-- The word that ends here, if there is one. -/
def flush : Option Marked → Option (List Token)
  | none => some []
  | some w => if expands w then none else some [.word (w.map Prod.fst)]

/-- A byte more in the word. -/
def push (cur : Option Marked) (b : Byte) (quoted : Bool) : Option Marked :=
  some (cur.getD [] ++ [(b, quoted)])

/-- The tokens of a line, `cur` being the word so far. -/
def lex : Mode → Option Marked → List Byte → Option (List Token)
  | .plain _, cur, [] => flush cur
  | .comment, _, [] => some []
  | .single, _, [] | .double, _, [] => none
  | .plain prev, cur, b :: bs =>
    match classOf b with
    | .blank => do return (← flush cur) ++ (← lex (.plain none) none bs)
    | .separator =>
      if prev = some b then do return .again b :: (← lex (.plain none) none bs)
      else do return (← flush cur) ++ .op b :: (← lex (.plain (some b)) none bs)
    | .single => lex .single (some (cur.getD [])) bs
    | .double => lex .double (some (cur.getD [])) bs
    | .backslash =>
      match bs with
      | [] => none
      | c :: bs =>
        if c = 0x0a then lex (.plain prev) cur bs else lex (.plain none) (push cur c true) bs
    | .unread => none
    | .ordinary =>
      if cur = none ∧ b = 0x23 then lex .comment none bs else lex (.plain none) (push cur b false) bs
  | .single, cur, b :: bs =>
    if b = 0x27 then lex (.plain none) cur bs else lex .single (push cur b true) bs
  | .double, cur, b :: bs =>
    if b = 0x22 then lex (.plain none) cur bs
    else if b ∈ ascii "$`" then none
    else if b = 0x5c then
      match bs with
      | [] => none
      | c :: bs =>
        if c = 0x0a then lex .double cur bs
        else if c ∈ ascii "$`" ∨ c = 0x22 ∨ c = 0x5c then lex .double (push cur c true) bs
        else lex .double (push (push cur b true) c true) bs
    else lex .double (push cur b true) bs
  | .comment, _, b :: bs =>
    if b = 0x0a then do return .op b :: (← lex (.plain none) none bs) else lex .comment none bs

/-! ## Commands -/

/-- The commands of a list of tokens: `cmd` are the words since the last
operator, and `pending` says that this one needs a command behind it. Reserved
words and assignments are words like others. -/
def parse : Bool → List (List Byte) → List Token → Option (List (List (List Byte)))
  | pending, cmd, [] => if cmd ≠ [] then some [cmd] else if pending then none else some []
  | pending, cmd, .word w :: ts => parse pending (cmd ++ [w]) ts
  | pending, cmd, .op b :: ts =>
    if cmd ≠ [] then (parse (b = 0x7c) [] ts).map (cmd :: ·)
    else if b = 0x0a then parse pending [] ts
    else none
  | pending, cmd, .again b :: ts =>
    if b = 0x3b then none
    else parse (pending || b ≠ 0x0a) cmd ts

/-- The words of the commands that a line runs. -/
def commands (line : List Byte) : Option (List (List (List Byte))) :=
  (lex (.plain none) none line).bind (parse false [])

example : commands (ascii "ls -l 'a b' ; echo \"x\\\"y\" z\\ ; true&&false # no") =
    some [[ascii "ls", ascii "-l", ascii "a b"], [ascii "echo", ascii "x\"y", ascii "z "], [ascii "true"],
      [ascii "false"]] := by
  decide +kernel

/-! ## Plain bytes -/

/-- The bytes of the words. -/
def size : List Token → Nat
  | [] => 0
  | .word w :: ts => w.length + size ts
  | .op _ :: ts | .again _ :: ts => size ts

theorem size_append (ts us : List Token) : size (ts ++ us) = size ts + size us := by
  induction ts with
  | nil => rw [List.nil_append, size, Nat.zero_add]
  | cons t ts ih =>
    cases t with
    | word w => rw [List.cons_append, size, size, ih, Nat.add_assoc]
    | op b => exact ih
    | again b => exact ih

theorem size_flush {cur : Option Marked} {ts : List Token} (h : flush cur = some ts) :
    size ts = (cur.getD []).length := by
  cases cur with
  | none => cases h; rfl
  | some w =>
    simp only [flush, Option.ite_none_left_eq_some] at h
    obtain ⟨-, h⟩ := h
    cases h
    simp [size]

@[simp] theorem length_push (cur : Option Marked) (b : Byte) (quoted : Bool) :
    ((push cur b quoted).getD []).length = (cur.getD []).length + 1 := by
  simp [push]

theorem lt_of_push {cur : Option Marked} {c : Byte} {quoted : Bool} {bs : List Byte} {n : Nat}
    (h : n < ((push cur c quoted).getD []).length + bs.length) (b : Byte) :
    n < (cur.getD []).length + (b :: bs).length := by
  rw [length_push] at h
  rw [List.length_cons]
  omega

/-- The words have `n` bytes, at most those of the word so far and of the line;
inside quotes fewer, and outside as many only if all of these are ordinary. -/
def Short (cur : Option Marked) (bs : List Byte) (n : Nat) : Mode → Prop
  | .plain _ => n ≤ (cur.getD []).length + bs.length ∧ (n = (cur.getD []).length + bs.length →
      (∀ b ∈ bs, classOf b = .ordinary) ∧ (cur = none → bs.head? ≠ some 0x23))
  | .single | .double => n < (cur.getD []).length + bs.length
  | .comment => n ≤ (cur.getD []).length + bs.length

theorem Short.le {cur : Option Marked} {bs : List Byte} {n : Nat} {m : Mode} (h : Short cur bs n m) :
    n ≤ (cur.getD []).length + bs.length := by
  cases m with
  | plain prev => exact h.1
  | single => exact Nat.le_of_lt h
  | double => exact Nat.le_of_lt h
  | comment => exact h

theorem Short.of_lt {cur : Option Marked} {bs : List Byte} {n : Nat} (m : Mode)
    (h : n < (cur.getD []).length + bs.length) : Short cur bs n m := by
  cases m with
  | plain prev => exact ⟨Nat.le_of_lt h, fun he => absurd h (by omega)⟩
  | single => exact h
  | double => exact h
  | comment => exact Nat.le_of_lt h

/-- With bytes more, of which nothing is left in the words. -/
theorem Short.more {cur cur' : Option Marked} {bs bs' : List Byte} {n : Nat} {m m' : Mode}
    (h : Short cur' bs' n m') (hl : (cur'.getD []).length + bs'.length < (cur.getD []).length + bs.length) :
    Short cur bs n m :=
  .of_lt m (Nat.lt_of_le_of_lt h.le hl)

/-- The word ends before the byte `b`. -/
theorem Short.flush {cur : Option Marked} {us vs : List Token} {bs : List Byte} {m' : Mode}
    (hu : flush cur = some us) (h : Short none bs (size vs) m') (b : Byte) (m : Mode) :
    Short cur (b :: bs) (size (us ++ vs)) m := by
  refine .of_lt m ?_
  have hle := h.le
  rw [size_append, size_flush hu, List.length_cons]
  simp only [Option.getD_none, List.length_nil] at hle
  omega

/-- What a line is read as is no longer than the line. -/
theorem short_lex {m : Mode} {cur : Option Marked} {bs : List Byte} {ts : List Token}
    (h : lex m cur bs = some ts) : Short cur bs (size ts) m := by
  fun_induction lex m cur bs generalizing ts with
  | case1 prev cur =>
    rw [Short, size_flush h]
    exact ⟨Nat.le_refl _, fun _ => ⟨nofun, fun _ => nofun⟩⟩
  | case2 => cases h; exact Nat.zero_le _
  | case5 prev cur b bs hb ih =>
    obtain ⟨us, hu, vs, hv, rfl⟩ : ∃ us, flush cur = some us ∧ ∃ vs, lex (.plain none) none bs = some vs ∧
      us ++ vs = ts := by simpa [Option.bind_eq_some_iff] using h
    exact .flush hu (ih hv) b _
  | case6 cur b bs hb ih =>
    obtain ⟨vs, hv, rfl⟩ : ∃ vs, lex (.plain none) none bs = some vs ∧ .again b :: vs = ts := by
      simpa [Option.bind_eq_some_iff] using h
    exact (ih hv).more (by simp only [List.length_cons, Option.getD_none, List.length_nil]; omega)
  | case7 prev cur b bs hb hp ih =>
    obtain ⟨us, hu, vs, hv, rfl⟩ : ∃ us, flush cur = some us ∧ ∃ vs, lex (.plain (some b)) none bs = some vs ∧
      us ++ .op b :: vs = ts := by simpa [Option.bind_eq_some_iff] using h
    have hs := ih hv
    exact .flush hu (show Short none bs (size (.op b :: vs)) _ from hs) b _
  | case8 prev cur b bs hb ih => exact (ih h).more (by simp)
  | case9 prev cur b bs hb ih => exact (ih h).more (by simp)
  | case11 prev cur b hb bs ih => exact (ih h).more (by simp only [List.length_cons]; omega)
  | case12 prev cur b hb c bs hc ih => exact (ih h).more (by simp only [length_push, List.length_cons]; omega)
  | case14 prev cur b bs hb hc ih => exact (ih h).more (by rw [hc.1]; simp)
  | case15 prev cur b bs hb hc ih =>
    obtain ⟨hle, heq⟩ := ih h
    simp only [Short, length_push, List.length_cons] at hle heq ⊢
    refine ⟨by omega, fun he => ?_⟩
    obtain ⟨hbs, -⟩ := heq (by omega)
    exact ⟨List.forall_mem_cons.mpr ⟨hb, hbs⟩, fun hcur hh => hc ⟨hcur, Option.some.inj hh⟩⟩
  | case16 cur bs ih => exact (ih h).more (by simp)
  | case17 cur b bs hb ih => exact lt_of_push (ih h) b
  | case18 cur bs ih => exact (ih h).more (by simp)
  | case21 cur bs hb he ih => exact (ih h).more (by simp only [List.length_cons]; omega)
  | case22 cur c bs hc he hb hb' ih => exact (ih h).more (by simp only [length_push, List.length_cons]; omega)
  | case23 cur c bs hc he hb hb' ih => exact lt_of_push (lt_of_push (ih h) c) 0x5c
  | case24 cur b bs hb he hb' ih => exact lt_of_push (ih h) b
  | case25 cur bs ih =>
    obtain ⟨vs, hv, rfl⟩ : ∃ vs, lex (.plain none) none bs = some vs ∧ .op 0x0a :: vs = ts := by
      simpa [Option.bind_eq_some_iff] using h
    exact (ih hv).more (by simp only [List.length_cons, Option.getD_none, List.length_nil]; omega)
  | case26 cur b bs hb ih =>
    exact (ih h).more (by simp only [List.length_cons, Option.getD_none, List.length_nil]; omega)
  | _ => cases h

/-- Bytes that are one word, and stand for themselves: ordinary ones, of which
the first is not a `#`, that the shell does not expand. -/
structure Plain (w : List Byte) : Prop where
  nonempty : w ≠ []
  ordinary : ∀ b ∈ w, classOf b = .ordinary
  noComment : w.head? ≠ some 0x23
  noExpansion : expands (unquoted w) = false

instance (w : List Byte) : Decidable (Plain w) :=
  letI : Decidable (∀ b ∈ w, classOf b = .ordinary) := List.decidableBAll _ _
  decidable_of_iff (w ≠ [] ∧ (∀ b ∈ w, classOf b = .ordinary) ∧ w.head? ≠ some 0x23 ∧ expands (unquoted w) = false)
    ⟨fun ⟨h₁, h₂, h₃, h₄⟩ => ⟨h₁, h₂, h₃, h₄⟩, fun ⟨h₁, h₂, h₃, h₄⟩ => ⟨h₁, h₂, h₃, h₄⟩⟩

theorem lex_cons_ordinary {b : Byte} (hb : classOf b = .ordinary) {cur : Option Marked}
    (hc : ¬ (cur = none ∧ b = 0x23)) (prev : Option Byte) (bs : List Byte) :
    lex (.plain prev) cur (b :: bs) = lex (.plain none) (push cur b false) bs := by
  rw [lex.eq_def]
  simp only [hb]
  exact if_neg hc

theorem lex_cons_blank {b : Byte} (hb : classOf b = .blank) (prev : Option Byte) (cur : Option Marked)
    (bs : List Byte) : lex (.plain prev) cur (b :: bs) =
      (flush cur).bind fun us => (lex (.plain none) none bs).map (us ++ ·) := by
  rw [lex.eq_def]
  simp only [hb]
  cases flush cur <;> cases lex (.plain none) none bs <;> rfl

/-- Ordinary bytes in a word. -/
theorem lex_ordinary {w : List Byte} (hw : ∀ b ∈ w, classOf b = .ordinary) (cur : Marked) (bs : List Byte) :
    lex (.plain none) (some cur) (w ++ bs) = lex (.plain none) (some (cur ++ unquoted w)) bs := by
  induction w generalizing cur with
  | nil => rw [List.nil_append, unquoted, List.map_nil, List.append_nil]
  | cons b w ih =>
    obtain ⟨hb, hw⟩ := List.forall_mem_cons.mp hw
    rw [List.cons_append, lex_cons_ordinary hb (by simp), push, Option.getD_some, ih hw, List.append_assoc,
      List.singleton_append, unquoted_cons]

/-- Ordinary bytes that start a word. -/
theorem lex_word {w : List Byte} (hne : w ≠ []) (hw : ∀ b ∈ w, classOf b = .ordinary)
    (hc : w.head? ≠ some 0x23) (bs : List Byte) :
    lex (.plain none) none (w ++ bs) = lex (.plain none) (some (unquoted w)) bs := by
  cases w with
  | nil => exact absurd rfl hne
  | cons b w =>
    obtain ⟨hb, hw⟩ := List.forall_mem_cons.mp hw
    have hb' : b ≠ 0x23 := fun h => hc (congrArg some h)
    rw [List.cons_append, lex_cons_ordinary hb fun h => hb' h.2, push, Option.getD_none, List.nil_append,
      lex_ordinary hw, List.singleton_append, unquoted_cons]

theorem flush_plain {w : List Byte} (hw : Plain w) : flush (some (unquoted w)) = some [.word w] := by
  rw [flush, hw.noExpansion, if_neg (by decide), unquoted_fst]

/-- A plain word, at the end of the line. -/
theorem lex_plain {w : List Byte} (hw : Plain w) : lex (.plain none) none w = some [.word w] := by
  have h := lex_word hw.nonempty hw.ordinary hw.noComment []
  rw [List.append_nil] at h
  rw [h, lex, flush_plain hw]

/-- A plain word, and a blank. -/
theorem lex_plain_blank {w : List Byte} (hw : Plain w) (bs : List Byte) :
    lex (.plain none) none (w ++ 0x20 :: bs) = (lex (.plain none) none bs).map (.word w :: ·) := by
  rw [lex_word hw.nonempty hw.ordinary hw.noComment, lex_cons_blank (by decide), flush_plain hw]
  rfl

theorem length_le_size {w : List Byte} {ts : List Token} (h : .word w ∈ ts) : w.length ≤ size ts := by
  induction ts with
  | nil => cases h
  | cons t ts ih =>
    rcases List.mem_cons.mp h with rfl | h
    · exact Nat.le_add_right _ _
    · refine Nat.le_trans (ih h) ?_
      cases t with
      | word v => exact Nat.le_add_left _ _
      | op b => exact Nat.le_refl _
      | again b => exact Nat.le_refl _

/-- Bytes that are read as the word that they are, are plain. -/
theorem lex_self {w : List Byte} {ts : List Token} (h : lex (.plain none) none w = some ts)
    (hw : .word w ∈ ts) : Plain w := by
  have hne : w ≠ [] := by
    rintro rfl
    cases h
    cases hw
  obtain ⟨hle, heq⟩ := short_lex h
  rw [Option.getD_none, List.length_nil, Nat.zero_add] at hle heq
  obtain ⟨ho, hc⟩ := heq (Nat.le_antisymm hle (length_le_size hw))
  refine ⟨hne, ho, hc rfl, ?_⟩
  have hl := lex_word hne ho (hc rfl) []
  rw [List.append_nil, h, lex, flush] at hl
  by_contra he
  rw [if_pos (by simpa using he)] at hl
  cases hl

/-! ## Lines of words -/

/-- A line: the words `ws`, and `x` behind them. -/
def line (ws : List (List Byte)) (x : List Byte) : List Byte := ws.foldr (fun w bs => w ++ 0x20 :: bs) x

theorem length_line (ws : List (List Byte)) (x : List Byte) :
    (line ws x).length = (line ws []).length + x.length := by
  induction ws with
  | nil => exact (Nat.zero_add _).symm
  | cons w ws ih =>
    have hl (y : List Byte) : (line (w :: ws) y).length = w.length + ((line ws y).length + 1) := List.length_append
    rw [hl, hl, ih]
    omega

theorem lex_line {ws : List (List Byte)} (hws : ∀ w ∈ ws, Plain w) (x : List Byte) :
    lex (.plain none) none (line ws x) = (lex (.plain none) none x).map (ws.map .word ++ ·) := by
  induction ws with
  | nil =>
    rw [line, List.foldr_nil]
    cases lex (.plain none) none x <;> rfl
  | cons w ws ih =>
    obtain ⟨hw, hws⟩ := List.forall_mem_cons.mp hws
    have hl := lex_plain_blank hw (line ws x)
    rw [ih hws, Option.map_map] at hl
    exact hl

theorem parse_words (ws cmd : List (List Byte)) (ts : List Token) :
    parse false cmd (ws.map .word ++ ts) = parse false (cmd ++ ws) ts := by
  induction ws generalizing cmd with
  | nil => rw [List.map_nil, List.nil_append, List.append_nil]
  | cons w ws ih => rw [List.map_cons, List.cons_append, parse, ih, List.append_assoc, List.singleton_append]

/-- The first command starts with the words so far. -/
theorem parse_prefix {pending : Bool} {cmd argv : List (List Byte)} {ts : List Token}
    {cmds : List (List (List Byte))} (hne : cmd ≠ []) (h : parse pending cmd ts = some (argv :: cmds)) :
    cmd <+: argv ∧ ∀ w ∈ argv, w ∈ cmd ∨ .word w ∈ ts := by
  induction ts generalizing pending cmd with
  | nil =>
    rw [parse, if_pos hne] at h
    cases h
    exact ⟨List.prefix_refl _, fun w hw => .inl hw⟩
  | cons t ts ih =>
    cases t with
    | word w =>
      rw [parse] at h
      obtain ⟨hp, hm⟩ := ih (by simp) h
      refine ⟨(List.prefix_append cmd [w]).trans hp, fun v hv => ?_⟩
      rcases hm v hv with hv | hv
      · rcases List.mem_append.mp hv with hv | hv
        · exact .inl hv
        · rw [List.mem_singleton.mp hv]
          exact .inr List.mem_cons_self
      · exact .inr (List.mem_cons_of_mem _ hv)
    | op b =>
      rw [parse, if_pos hne] at h
      obtain ⟨cs, -, h⟩ := Option.map_eq_some_iff.mp h
      cases h
      exact ⟨List.prefix_refl _, fun w hw => .inl hw⟩
    | again b =>
      rw [parse] at h
      split at h
      · cases h
      · obtain ⟨hp, hm⟩ := ih hne h
        exact ⟨hp, fun w hw => (hm w hw).imp_right (List.mem_cons_of_mem _)⟩

/-- A line of plain words. -/
theorem commands_line {ws : List (List Byte)} (hws : ∀ w ∈ ws, Plain w) {x : List Byte} (hx : Plain x) :
    commands (line ws x) = some [ws ++ [x]] := by
  rw [commands, lex_line hws, lex_plain hx, Option.map_some, Option.bind_some, parse_words, List.nil_append,
    parse, parse, if_pos (by simp)]

/-- The words of a line, the last of which may be anything. -/
theorem commands_line_some {ws : List (List Byte)} (hne : ws ≠ []) (hws : ∀ w ∈ ws, Plain w) {x : List Byte}
    {argv : List (List Byte)} {cmds : List (List (List Byte))}
    (h : commands (line ws x) = some (argv :: cmds)) : ws <+: argv ∧ (x ∈ argv → Plain x) := by
  rw [commands, lex_line hws] at h
  cases hx : lex (.plain none) none x with
  | none => rw [hx] at h; cases h
  | some ts =>
    rw [hx, Option.map_some, Option.bind_some, parse_words, List.nil_append] at h
    obtain ⟨hp, hm⟩ := parse_prefix hne h
    refine ⟨hp, fun hxa => ?_⟩
    rcases hm x hxa with h | h
    · exact hws x h
    · exact lex_self hx h

end Linkkit.Shell
