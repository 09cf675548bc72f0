import Linkkit.Spec.Solo

/-!
# The service of the example adds up

What the handler can do to the heap and the response is said once
(`handle_cases`); the text of every number fits in its block (`respond_says`).
From this `service_answers`, about one request; and, about every run,
`trees_freed_iff`: two paths of the handler lose the tree.
-/

namespace Linkkit.Proof.Solo

open Impl.Solo Spec.Solo

section

variable {J : Type*} {json : CJson J} {r : Request} {heap heap' : Heap} {ret : Int32} {response : Option Response}
  {a b : Int32}

/-- A sum that is defined is the sum. -/
theorem toInt_of_add {c : Int32} (h : add a b = some c) :
    (-2147483648 ≤ a.toInt + b.toInt ∧ a.toInt + b.toInt < 2147483648) ∧ c.toInt = a.toInt + b.toInt := by
  unfold add at h
  split at h
  · rename_i hfits
    cases h
    refine ⟨hfits, ?_⟩
    rw [Int32.toInt_add]
    exact Int.bmod_eq_of_le (by omega) (by omega)
  · cases h

/-- What a call does. -/
theorem handle_cases (h : handle json r heap = some (ret, response, heap')) :
    (json.parse r.request.bytes = none ∧ ret = -1 ∧ response = none ∧ heap' = heap) ∨
    ∃ root, json.parse r.request.bytes = some root ∧
      ((json.isObject root = false ∧ ret = -1 ∧ response = none ∧ heap.opens r.addrs.root = some heap') ∨
      (json.isObject root = true ∧ isOperationService r.serviceid r.serviceidLen = some false ∧ ret = 0 ∧
        response = none ∧ heap' = heap) ∨
      (json.isObject root = true ∧ isOperationService r.serviceid r.serviceidLen = some true ∧
        (number json root "NumberA" = none ∨ number json root "NumberB" = none) ∧ ret = -1 ∧ response = none ∧
        heap' = heap) ∨
      (∃ a b sum, AsksFor json r a b ∧ add a b = some sum ∧ r.addrs.malloc = 0 ∧ ret = -1 ∧ response = none ∧
        heap.opens r.addrs.root = some heap') ∨
      ∃ a b sum resp, AsksFor json r a b ∧ add a b = some sum ∧ r.addrs.malloc ≠ 0 ∧ ret = 0 ∧
        response = some resp ∧ respond r.addrs.malloc sum = some resp ∧ ¬ heap.IsOpen r.addrs.malloc ∧
        ∀ p, heap'.IsOpen p ↔ p = r.addrs.malloc ∨ heap.IsOpen p) := by
  unfold handle userServiceRequestEventHandler at h
  cases hp : json.parse r.request.bytes with
  | none =>
    rw [hp] at h
    cases h
    exact .inl ⟨rfl, rfl, rfl, rfl⟩
  | some root =>
    rw [hp] at h
    refine .inr ⟨root, rfl, ?_⟩
    obtain ⟨heap₁, h₁, h⟩ := Option.bind_eq_some_iff.mp h
    have hclose := Descriptors.close_of_opens h₁
    by_cases ho : json.isObject root = true
    · simp only [ho, Bool.not_true, Bool.false_eq_true, if_false] at h
      obtain ⟨op, hop, h⟩ := Option.bind_eq_some_iff.mp h
      cases op with
      | false =>
        cases h
        exact .inr (.inl ⟨ho, hop, rfl, rfl, hclose⟩)
      | true =>
        simp only [Bool.not_true, Bool.false_eq_true, if_false] at h
        cases ha : number json root "NumberA" with
        | none =>
          rw [ha] at h
          cases h
          exact .inr (.inr (.inl ⟨ho, hop, .inl rfl, rfl, rfl, hclose⟩))
        | some a =>
          cases hb : number json root "NumberB" with
          | none =>
            rw [ha, hb] at h
            cases h
            exact .inr (.inr (.inl ⟨ho, hop, .inr rfl, rfl, rfl, hclose⟩))
          | some b =>
            have hasks : AsksFor json r a b := ⟨root, hp, ho, hop, ha, hb⟩
            simp only [ha, hb] at h
            obtain ⟨sum, hsum, h⟩ := Option.bind_eq_some_iff.mp h
            split at h
            · rename_i hm
              cases h
              exact .inr (.inr (.inr (.inl ⟨a, b, sum, hasks, hsum, hm, rfl, rfl, h₁⟩)))
            · rename_i hm
              obtain ⟨heap₂, h₂, h⟩ := Option.bind_eq_some_iff.mp h
              obtain ⟨resp, hresp, h⟩ := Option.bind_eq_some_iff.mp h
              cases h
              have hroot := (Descriptors.opens_eq_some.mp h₁).1
              have hfree := (Descriptors.opens_eq_some.mp h₂).1
              rw [Descriptors.isOpen_of_opens h₁, not_or] at hfree
              refine .inr (.inr (.inr (.inr ⟨a, b, sum, resp, hasks, hsum, hm, rfl, rfl, hresp, hfree.2,
                fun p => ?_⟩)))
              rw [Descriptors.isOpen_close, Descriptors.isOpen_of_opens h₂, Descriptors.isOpen_of_opens h₁]
              by_cases he : p = r.addrs.root
              · subst he
                exact iff_of_false (fun hc => hc.1 rfl) (not_or.mpr ⟨Ne.symm hfree.1, hroot⟩)
              · simp [he]
    · rw [Bool.not_eq_true] at ho
      rw [ho] at h
      cases h
      exact .inl ⟨ho, rfl, rfl, h₁⟩

/-! ## The response -/

theorem says_inj {text : List Byte} {m n : Int} (hm : Says text m) (hn : Says text n) : m = n := by
  obtain ⟨t, ht, hm⟩ := hm
  obtain ⟨t', ht', hn⟩ := hn
  rw [ht] at ht'
  obtain rfl := List.append_cancel_left (List.append_cancel_right ht')
  rw [hm] at hn
  cases hn
  rfl

/-- The block holds the whole text. -/
theorem respond_says (addr : UInt64) (x : Int32) :
    ∃ resp text rest, respond addr x = some resp ∧ resp.addr = addr ∧ resp.bytes.bytes = text ++ 0 :: rest ∧
      0 ∉ text ∧ resp.len = text.length ∧ Says text x.toInt := by
  generalize ht : ascii "\x7b\"Result\": " ++ decimalText x.toInt ++ ascii "\x7d" = text
  have hdec := length_decimalText_le (show x.toInt.natAbs < 10000000000 by
    have := x.toInt_lt
    have := x.le_toInt
    omega)
  have hlen : text.length ≤ 23 := by
    rw [← ht, List.length_append, List.length_append]
    have h₁ : (ascii "\x7b\"Result\": ").length = 11 := by decide +kernel
    have h₂ : (ascii "\x7d").length = 1 := by decide
    omega
  have hnul : 0 ∉ text := by
    rw [← ht, List.mem_append, List.mem_append, not_or, not_or]
    exact ⟨⟨by decide +kernel, fun h => (inLine_decimalText _ 0 h).1 rfl⟩, by decide⟩
  obtain ⟨b, hb, hv⟩ := (Buf.zero responseSize).memcpy_take (text ++ [0])
    (show 0 + (text ++ [0]).length ≤ 25 by rw [List.length_append, List.length_singleton]; omega)
    (Nat.le_refl (text ++ [0]).length)
  have hbytes : b.bytes = text ++ 0 :: b.bytes.drop (0 + (text ++ [0]).length) := by
    rw [List.take_length, List.take_zero, List.nil_append] at hv
    conv_lhs => rw [← List.take_append_drop (0 + (text ++ [0]).length) b.bytes, hv]
    rw [List.append_assoc, List.singleton_append]
  have hs : strlen b.bytes = some text.length := by rw [hbytes, strlen_string hnul]
  refine ⟨⟨addr, b, text.length⟩, text, _, ?_, rfl, hbytes, hnul, rfl, decimalText x.toInt, ht.symm, ?_⟩
  · unfold respond
    dsimp only
    rw [ht, List.take_of_length_le (Nat.le_trans hlen (by decide)), hb]
    simp only [Option.bind_eq_bind, Option.bind_some, hs]
    rfl
  · have h : scanInt 10 none ([] ++ decimalText x.toInt ++ []) = some (x.toInt, []) :=
      scanInt_decimal x.toInt (fun c hc => absurd hc List.not_mem_nil) (fun c hc => by cases hc)
    rwa [List.nil_append, List.append_nil] at h

/-! ## One request -/

variable {root : J}

theorem asksFor_iff (hp : json.parse r.request.bytes = some root) : AsksFor json r a b ↔ json.isObject root = true ∧
    isOperationService r.serviceid r.serviceidLen = some true ∧ number json root "NumberA" = some a ∧
      number json root "NumberB" = some b := by
  simp only [AsksFor, hp, Option.some.injEq, exists_eq_left']

theorem isObject_iff (hp : json.parse r.request.bytes = some root) : IsObject json r ↔ json.isObject root = true := by
  simp only [IsObject, hp, Option.some.injEq, exists_eq_left']

/-- What is not answered, for want of a sum or of memory. -/
theorem answered_none (hn : ∀ a b, AsksFor json r a b → r.addrs.malloc = 0) (he : ret = -1 ↔ ¬ IsObject json r ∨
    isOperationService r.serviceid r.serviceidLen = some true) : Answered json r ret none :=
  ⟨fun a b hs hm => absurd (hn a b hs) hm, fun _ => rfl, by rw [he, eq_self_iff_true, and_true]⟩

/-- Whatever a defined call returns, it is an answer. -/
theorem handle_answered (h : handle json r heap = some (ret, response, heap')) : Answered json r ret response := by
  rcases handle_cases h with ⟨hp, rfl, rfl, -⟩ | ⟨root, hp, hcases⟩
  · refine answered_none (fun a b ⟨root, hr, _⟩ => ?_) (iff_of_true rfl (.inl fun ⟨root, hr, _⟩ => ?_))
    · rw [hp] at hr
      cases hr
    · rw [hp] at hr
      cases hr
  rcases hcases with ⟨ho, rfl, rfl, -⟩ | ⟨ho, hop, rfl, rfl, -⟩ | ⟨ho, hop, hnum, rfl, rfl, -⟩ |
    ⟨a, b, sum, hasks, -, hm, rfl, rfl, -⟩ | ⟨a, b, sum, resp, hasks, hsum, hm, rfl, rfl, hresp, -⟩
  · refine answered_none (fun a b hs => ?_) (iff_of_true rfl (.inl ?_))
    · simp [asksFor_iff hp, ho] at hs
    · simp [isObject_iff hp, ho]
  · refine answered_none (fun a b hs => ?_) (iff_of_false (by decide) ?_)
    · simp [asksFor_iff hp, hop] at hs
    · simp [isObject_iff hp, ho, hop]
  · refine answered_none (fun a b hs => ?_) (iff_of_true rfl (.inr hop))
    rw [asksFor_iff hp] at hs
    rcases hnum with hnum | hnum <;> simp [hnum] at hs
  · exact answered_none (fun _ _ _ => hm) (iff_of_true rfl (.inr ((asksFor_iff hp).mp hasks).2.1))
  · obtain ⟨resp', text, rest, hr, haddr, hbytes, hnul, hlen, hsays⟩ := respond_says r.addrs.malloc sum
    rw [hresp] at hr
    cases hr
    rw [(toInt_of_add hsum).2] at hsays
    have hobj := (asksFor_iff hp).mp hasks
    refine ⟨fun a' b' hs _ => ⟨rfl, resp, text, rest, rfl, haddr, hbytes, hnul, hlen, fun n => ?_⟩, fun hno => ?_,
      iff_of_false (by decide) ?_⟩
    · have hs := (asksFor_iff hp).mp hs
      obtain rfl : a = a' := Option.some.inj (hobj.2.2.1.symm.trans hs.2.2.1)
      obtain rfl : b = b' := Option.some.inj (hobj.2.2.2.symm.trans hs.2.2.2)
      exact ⟨fun hn => says_inj hn hsays, fun he => he ▸ hsays⟩
    · exact hno.elim (fun hno => absurd hasks (hno a b)) fun hz => absurd hz hm
    · simp [isObject_iff hp, hobj.1]

/-- `memcmp` stays in `serviceid`, which has the bytes that its length says. -/
theorem isOperationService_isSome {serviceid : List Byte} {serviceidLen : Int32}
    (h : serviceidLen.toInt ≤ serviceid.length) : ∃ op, isOperationService serviceid serviceidLen = some op := by
  have hname : (ascii "Operation_Service").length = 17 := by decide +kernel
  unfold isOperationService
  dsimp only
  split
  · rename_i he
    have hlt := serviceidLen.toInt_lt
    have hge := serviceidLen.le_toInt
    unfold sizeT at he
    rw [if_pos (by omega)]
    exact ⟨_, rfl⟩
  · exact ⟨_, rfl⟩

/-- A request is handled, inside the arrays, exactly if an `int` holds the sum
that it asks for, and what is handled is answered. -/
theorem service_answers (hid : r.serviceidLen.toInt ≤ r.serviceid.length)
    (hroot : ¬ heap.IsOpen r.addrs.root) (hmalloc : ¬ heap.IsOpen r.addrs.malloc)
    (hne : r.addrs.malloc ≠ r.addrs.root) :
    ((handle json r heap).isSome = true ↔ Fits json r) ∧
      ∀ ret response heap', handle json r heap = some (ret, response, heap') → Answered json r ret response := by
  refine ⟨⟨fun h a b hasks => ?_, fun hfits => ?_⟩, fun ret response heap' h => handle_answered h⟩
  · obtain ⟨⟨ret, response, heap'⟩, h⟩ := Option.isSome_iff_exists.mp h
    obtain ⟨root, hp, ho, hop, ha, hb⟩ := hasks
    rcases handle_cases h with ⟨hp', -⟩ | ⟨root', hp', hcases⟩
    · rw [hp] at hp'
      cases hp'
    rw [hp] at hp'
    cases hp'
    rcases hcases with ⟨ho', -⟩ | ⟨-, hop', -⟩ | ⟨-, -, hnum, -⟩ | ⟨a', b', sum, hasks, hsum, -⟩ |
      ⟨a', b', sum, resp, hasks, hsum, -⟩
    · rw [ho] at ho'
      cases ho'
    · rw [hop] at hop'
      cases hop'
    · rcases hnum with hnum | hnum <;> simp [ha, hb] at hnum
    all_goals
      obtain ⟨-, -, ha', hb'⟩ := (asksFor_iff hp).mp hasks
      rw [ha] at ha'
      rw [hb] at hb'
      cases ha'
      cases hb'
      exact (toInt_of_add hsum).1
  obtain ⟨op, hop⟩ := isOperationService_isSome hid
  unfold handle userServiceRequestEventHandler
  split
  · rfl
  rename_i root hp
  obtain ⟨heap₁, h₁⟩ := Descriptors.opens_of_closed hroot
  have hfree : ¬ heap₁.IsOpen r.addrs.malloc := by
    rw [Descriptors.isOpen_of_opens h₁]
    exact not_or.mpr ⟨hne, hmalloc⟩
  obtain ⟨heap₂, h₂⟩ := Descriptors.opens_of_closed hfree
  simp only [h₁, hop, Option.bind_eq_bind, Option.bind_some]
  split
  · rfl
  rename_i ho
  split
  · rfl
  rename_i hop'
  split
  · rename_i a b ha hb
    simp only [Bool.not_eq_true, Bool.not_eq_false'] at ho hop'
    obtain ⟨resp, text, rest, hresp, -⟩ := respond_says r.addrs.malloc (a + b)
    rw [add, if_pos (hfits a b ((asksFor_iff hp).mpr ⟨ho, hop' ▸ hop, ha, hb⟩)), Option.bind_some]
    split
    · rfl
    · rw [h₂, Option.bind_some, hresp]
      rfl
  · rfl

/-! ## Runs -/

variable {s s' : State} {c : Call} {o : Option Int32}

/-- The blocks of the responses that are held, each once. -/
abbrev Keeps (s : State) : Prop := Descriptors.Holds (id : UInt64 → UInt64) id s.heap s.held

theorem Keeps.released (h : Keeps s) : Released s := fun addr => by
  rw [h.isOpen addr]
  simp

theorem step_keeps (h : Keeps s) (hc : c.FreesTree json) (hs : step json s c = some (s', o)) : Keeps s' := by
  cases c with
  | request r =>
    obtain ⟨⟨ret, response, heap'⟩, hh, hs⟩ := Option.map_eq_some_iff.mp hs
    cases hs
    rcases handle_cases hh with ⟨-, -, rfl, rfl⟩ | ⟨root, hp, hcases⟩
    · exact h
    rcases hcases with ⟨ho, -⟩ | ⟨-, -, -, rfl, rfl⟩ | ⟨-, -, -, -, rfl, rfl⟩ | ⟨a, b, sum, hasks, -, hm, -⟩ |
      ⟨a, b, sum, resp, -, -, -, -, rfl, hresp, hfree, hopen⟩
    · rw [(hc root hp).1] at ho
      cases ho
    · exact h
    · exact h
    · exact absurd hm ((hc root hp).2 a b hasks)
    · obtain ⟨resp', -, -, hr, haddr, -⟩ := respond_says r.addrs.malloc sum
      rw [hresp] at hr
      cases hr
      show Descriptors.Holds _ _ heap' (resp.addr :: s.held)
      rw [haddr]
      exact h.cons rfl hfree hopen
  | free addr =>
    rw [step] at hs
    split at hs
    · rename_i hm
      cases hs
      exact h.erase hm
    · cases hs

theorem step_breaks (h : Keeps s) (hc : ¬ c.FreesTree json) (hs : step json s c = some (s', o)) : ¬ Released s' := by
  cases c with
  | request r =>
    obtain ⟨⟨ret, response, heap'⟩, hh, hs⟩ := Option.map_eq_some_iff.mp hs
    cases hs
    -- The tree is lost: it is allocated, and not among the responses.
    have hlost (hopens : s.heap.opens r.addrs.root = some heap') : ¬ Released ⟨heap', s.held⟩ := fun hrel =>
      (Descriptors.opens_eq_some.mp hopens).1
        ((h.released _).mpr ((hrel _).mp ((Descriptors.isOpen_of_opens hopens).mpr (.inl rfl))))
    rcases handle_cases hh with ⟨hp, -⟩ | ⟨root, hp, hcases⟩
    · exact absurd (fun root hr => by rw [hp] at hr; cases hr) hc
    have hclean (ho : json.isObject root = true) (hm : ∀ a b, AsksFor json r a b → r.addrs.malloc ≠ 0) : False := by
      refine hc fun root' hr => ?_
      rw [hp] at hr
      cases hr
      exact ⟨ho, hm⟩
    rcases hcases with ⟨-, -, rfl, hopens⟩ | ⟨ho, hop, -⟩ | ⟨ho, -, hnum, -⟩ | ⟨a, b, sum, -, -, -, -, rfl, hopens⟩ |
      ⟨a, b, sum, resp, hasks, -, hm, -⟩
    · exact hlost hopens
    · refine (hclean ho fun a b hs => ?_).elim
      simp [asksFor_iff hp, hop] at hs
    · refine (hclean ho fun a b hs => ?_).elim
      rw [asksFor_iff hp] at hs
      rcases hnum with hnum | hnum <;> simp [hnum] at hs
    · exact hlost hopens
    · exact (hclean ((asksFor_iff hp).mp hasks).1 fun _ _ _ => hm).elim
  | free addr => exact absurd trivial hc

/-- After every part of a run the blocks that are allocated are the responses that
were not freed yet, exactly if every request with a tree was an object, and every
sum was given memory for its response. -/
theorem trees_freed_iff {calls : List Call} {hist : List (Call × Option Int32)}
    (hr : run (step json) ⟨Descriptors.none, []⟩ calls = some (s, hist)) :
    (∀ cs s' hist', cs <+: calls → run (step json) ⟨Descriptors.none, []⟩ cs = some (s', hist') → Released s') ↔
      ∀ c ∈ calls, c.FreesTree json := by
  rw [← along_inputs_iff hr]
  exact run_iff (P := fun s _ => Released s) (fun s h (hk : Keeps s) => hk.released)
    (fun s h i s' o hk hc hs => step_keeps hk hc hs) (fun s h i s' o hk hc hs => step_breaks hk hc hs)
    Descriptors.Holds.none hr

end

/-! ### Two requests -/

/-- A value of two kinds. -/
inductive Value where
  | object (fields : List (List Byte × Int32))
  | number (n : Int32)

/-- A request for a sum, one for a sum that an `int` does not hold, and an array,
which is no object. -/
def small : CString := ⟨ascii "\x7b\"NumberA\": 19, \"NumberB\": 23\x7d", by decide +kernel⟩

def tooLarge : CString := ⟨ascii "\x7b\"NumberA\": 2147483647, \"NumberB\": 1\x7d", by decide +kernel⟩

def array : CString := ⟨ascii "[1]", by decide⟩

/-- `cJSON`, on these. -/
def values : CJson Value where
  parse text :=
    if text = small.bytes then some (.object [(ascii "NumberA", 19), (ascii "NumberB", 23)])
    else if text = tooLarge.bytes then some (.object [(ascii "NumberA", 2147483647), (ascii "NumberB", 1)])
    else if text = array.bytes then some (.number 1) else none
  isObject
    | .object _ => true
    | .number _ => false
  getObjectItem
    | .object fields, key => (fields.lookup key).map .number
    | .number _, _ => none
  isNumber
    | .object _ => false
    | .number _ => true
  valueint
    | .object _ => 0
    | .number n => n

def sumRequest (request : CString) : Request := ⟨⟨0x1000, 0x2000⟩, ascii "Operation_Service", 17, request⟩

theorem service_answers_tooLarge : ((handle values (sumRequest tooLarge) Descriptors.none).isSome = true ↔
      Fits values (sumRequest tooLarge)) ∧
    ∀ ret response heap', handle values (sumRequest tooLarge) Descriptors.none = some (ret, response, heap') →
      Answered values (sumRequest tooLarge) ret response :=
  service_answers (by decide +kernel) Descriptors.not_isOpen_none Descriptors.not_isOpen_none (by decide)

/-- The request is answered, its response is freed, and the array is lost. -/
theorem trees_freed_iff_array :
    let calls : List Call := [.request (sumRequest small), .free 0x2000,
      .request ⟨⟨0x3000, 0⟩, ascii "Operation_Service", 17, array⟩]
    ∃ s hist, run (step values) ⟨Descriptors.none, []⟩ calls = some (s, hist) ∧
      ((∀ cs s' hist', cs <+: calls → run (step values) ⟨Descriptors.none, []⟩ cs = some (s', hist') →
        Released s') ↔ ∀ c ∈ calls, c.FreesTree values) := by
  intro calls
  have hr : run (step values) ⟨Descriptors.none, []⟩ calls = some (_, _) := rfl
  exact ⟨_, _, hr, trees_freed_iff hr⟩

end Linkkit.Proof.Solo
