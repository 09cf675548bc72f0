import Linkkit.Proof.Solo
import Linkkit.Spec.Example

/-!
# What the example program calls

The credentials reach the SDK (`masterMetaInfo_eq`), a callback adds what answers it
(`event_eq`), and a turn what its number says (`turn_eq`): the two counters of the
program are functions of it (`At`). By induction on the turns, `main_performs`.
-/

namespace Linkkit.Proof.Example

open Impl.Example Spec.Example
open Impl.Solo (CJson add)

/-! ## Credentials -/

section

variable {n : Nat} {text : CString}

theorem memset_zero (dst : Buf n) : dst.memset 0 0 n = some (Buf.zero n) := Buf.memset_all dst 0

/-- A text that fits is stored at the start of an array of zeros. -/
theorem getText_of_le (h : text.bytes.length ≤ n) (dst : Buf (n + 1)) :
    getText text dst = some (text.bytes.length, Buf.ofList (n + 1) text.bytes) := by
  unfold getText
  rw [strlen_mem]
  simp only [Option.bind_eq_bind, Option.bind_some, memset_zero, Buf.strncpy_zero text (Nat.le_succ_of_le h),
    CString.take_of_length_le (Nat.le_refl _)]
  rfl

theorem copyText_of_le (h : text.bytes.length ≤ n) :
    copyText (Buf.ofList (n + 1) text.bytes) = some (Buf.ofList (n + 1) text.bytes) := by
  have hbytes := Buf.bytes_ofList_lt (Nat.lt_succ_of_le h)
  unfold copyText
  rw [Buf.strlen_ofList text.noNul (Nat.lt_succ_of_le h)]
  show (Buf.zero (n + 1)).memcpy 0 _ _ = _
  rw [hbytes, Buf.memcpy_zero (by omega) (by rw [List.length_append]; omega), List.take_left]

/-- A text that is copied from the array fits: one that is longer fills the array
without a terminator, or leaves it. -/
theorem le_of_copyText {dst b b' : Buf (n + 1)} {m : Nat} (h : getText text dst = some (m, b))
    (hc : copyText b = some b') : text.bytes.length ≤ n := by
  by_contra hn
  unfold getText at h
  rw [strlen_mem] at h
  simp only [Option.bind_eq_bind, Option.bind_some, memset_zero] at h
  obtain ⟨c, hcpy, h⟩ := Option.bind_eq_some_iff.mp h
  cases h
  rw [Buf.strncpy, CString.mem, strncpyBytes_string text.noNul, List.take_length, Nat.sub_self] at hcpy
  simp only [Option.bind_eq_bind, Option.bind_some, List.replicate_zero, List.append_nil] at hcpy
  have hle : text.bytes.length ≤ n + 1 := by
    unfold Buf.memcpy at hcpy
    split at hcpy
    · rename_i hle
      omega
    · cases hcpy
  rw [Buf.memcpy_zero hle (Nat.le_refl _), List.take_length] at hcpy
  cases hcpy
  obtain ⟨k, hk, -⟩ := Option.bind_eq_some_iff.mp hc
  have hmem := mem_of_strlen hk
  rw [Buf.bytes_ofList hle, show n + 1 - text.bytes.length = 0 by omega, zeros, List.replicate_zero,
    List.append_nil] at hmem
  exact text.noNul hmem

variable {len : Lens} {texts : Texts}

/-- The SDK is given the credentials. -/
theorem masterMetaInfo_eq (h : Fits len texts) : masterMetaInfo texts = some (metaInfoOf texts : MetaInfo len) := by
  obtain ⟨h₁, h₂, h₃, h₄⟩ := h
  unfold masterMetaInfo halGetProductKey halGetProductSecret halGetDeviceName halGetDeviceSecret
  rw [getText_of_le h₁, getText_of_le h₂, getText_of_le h₃, getText_of_le h₄]
  simp only [Option.bind_eq_bind, Option.bind_some, Buf.strlen_ofList texts.deviceName.noNul (Nat.lt_succ_of_le h₃),
    Option.pure_def, copyText_of_le h₁, copyText_of_le h₂, copyText_of_le h₃, copyText_of_le h₄]
  rfl

theorem fits_of_masterMetaInfo {m : MetaInfo len} (h : masterMetaInfo texts = some m) : Fits len texts := by
  unfold masterMetaInfo at h
  obtain ⟨⟨_, productKey⟩, h₁, h⟩ := Option.bind_eq_some_iff.mp h
  obtain ⟨⟨_, productSecret⟩, h₂, h⟩ := Option.bind_eq_some_iff.mp h
  obtain ⟨⟨_, deviceName⟩, h₃, h⟩ := Option.bind_eq_some_iff.mp h
  obtain ⟨⟨_, deviceSecret⟩, h₄, h⟩ := Option.bind_eq_some_iff.mp h
  obtain ⟨_, hc₁, h⟩ := Option.bind_eq_some_iff.mp h
  obtain ⟨_, hc₂, h⟩ := Option.bind_eq_some_iff.mp h
  obtain ⟨_, hc₃, h⟩ := Option.bind_eq_some_iff.mp h
  obtain ⟨_, hc₄, h⟩ := Option.bind_eq_some_iff.mp h
  unfold halGetDeviceName at h₃
  obtain ⟨⟨m₃, deviceName'⟩, h₃, hl⟩ := Option.bind_eq_some_iff.mp h₃
  obtain ⟨k, -, hl⟩ := Option.bind_eq_some_iff.mp hl
  cases hl
  exact ⟨le_of_copyText h₁ hc₁, le_of_copyText h₂ hc₂, le_of_copyText h₃ hc₃, le_of_copyText h₄ hc₄⟩

end

/-! ## Callbacks -/

section

variable {J : Type*} {json : CJson J} {len : Lens} {s : State len} {v : Spec.Solo.State}

/-- The service in the state of the program. -/
def serviceOf (s : State len) : Spec.Solo.State := ⟨s.heap, s.responses⟩

theorem serve_nil : serve json v [] = some v := rfl

theorem serve_cons (c : Spec.Solo.Call) (cs : List Spec.Solo.Call) :
    serve json v (c :: cs) = (Spec.Solo.step json v c).bind fun p => serve json p.1 cs := by
  unfold serve
  cases hs : Spec.Solo.step json v c with
  | none => rw [run, hs]; rfl
  | some p =>
    rw [run_cons_of_step hs, Option.map_map]
    rfl

theorem serve_append (cs ds : List Spec.Solo.Call) :
    serve json v (cs ++ ds) = (serve json v cs).bind fun v' => serve json v' ds := by
  induction cs generalizing v with
  | nil => rfl
  | cons c cs ih =>
    rw [List.cons_append, serve_cons, serve_cons, Option.bind_assoc]
    simp only [ih]

theorem serveEvents_nil : serveEvents json v [] = some v :=
  (if_pos fun _ he => absurd he List.not_mem_nil).trans serve_nil

theorem serveEvents_append (es fs : List Event) :
    serveEvents json v (es ++ fs) = (serveEvents json v es).bind fun v' => serveEvents json v' fs := by
  unfold serveEvents
  rw [List.filterMap_append, serve_append]
  simp only [List.forall_mem_append, ite_and]
  split
  · split
    · rfl
    · exact (Option.bind_fun_none _).symm
  · rfl

theorem serveEvents_singleton (e : Event) :
    serveEvents json v [e] = if Traces e then serve json v (service e).toList else none := by
  simp only [serveEvents, List.forall_mem_singleton, List.filterMap_cons]
  cases service e <;> rfl

/-! ### What is traced -/

theorem bind_eq_ite {α β : Type*} {o : Option α} {x : Option β} {p : Prop} [Decidable p] (h : o.isSome = true ↔ p) :
    (o.bind fun _ => x) = if p then x else none := by
  cases o with
  | none => rw [Option.bind_none, if_neg fun hp => Bool.false_ne_true (h.mpr hp)]
  | some a => rw [Option.bind_some, if_pos (h.mp rfl)]

theorem trace_isSome (strings : List (List Byte)) : (trace strings).isSome = true ↔ ∀ t ∈ strings, 0 ∈ t := by
  induction strings with
  | nil => exact iff_of_true rfl fun t ht => absurd ht List.not_mem_nil
  | cons t strings ih =>
    rw [trace, bind_eq_ite strlen_isSome, List.forall_mem_cons]
    by_cases ht : 0 ∈ t
    · rw [if_pos ht, ih, and_iff_right ht]
    · rw [if_neg ht]
      exact iff_of_false Bool.false_ne_true fun h => ht h.1

/-- `NULL` has an end. -/
theorem ends_reply (reply : Option (List Byte)) (replyLen : Int32) :
    Ends replyLen (reply.getD (ascii "NULL" ++ [0])) ↔ ∀ text ∈ reply, Ends replyLen text := by
  cases reply with
  | none => exact iff_of_true (.inr (by decide)) fun text h => absurd h (Option.not_mem_none text)
  | some text => exact ⟨fun h t ht => Option.mem_some.mp ht ▸ h, fun h => h text rfl⟩

/-! ### What is answered -/

/-- `g_user_example_ctx` after a callback. -/
def ctxAfter (ctx : UserExampleCtx) : Event → UserExampleCtx
  | .connectSucc => { ctx with cloudConnected := 1 }
  | .disconnected => { ctx with cloudConnected := 0 }
  | .initializeCompleted => { ctx with masterInitialized := 1 }
  | _ => ctx

theorem ctxAfter_masterDevid (ctx : UserExampleCtx) (e : Event) : (ctxAfter ctx e).masterDevid = ctx.masterDevid := by
  cases e <;> rfl

/-- The state after callbacks that leave the service in `v`. -/
def after (s : State len) (events : List Event) (v : Spec.Solo.State) : State len :=
  { s with
    ctx := events.foldl ctxAfter s.ctx
    heap := v.heap
    responses := v.held
    calls := s.calls ++ events.flatMap answer }

/-- A callback that is not answered. -/
theorem after_quiet (s : State len) {e : Event} (ha : (answer e : List (Call len)) = []) (v : Spec.Solo.State) :
    after s [e] v = { s with ctx := ctxAfter s.ctx e, heap := v.heap, responses := v.held } := by
  rw [after, List.flatMap_singleton, ha, List.append_nil]
  rfl

theorem queryNew_eq (s : State len) (msgType : MsgType) (type : Int32) (strings : List (List Byte)) :
    queryNew s msgType type strings = if type = 0 → ∀ t ∈ strings, 0 ∈ t then
      some { s with calls := s.calls ++ if type = 0 then [.query 0 msgType (zeros 128)] else [] } else none := by
  unfold queryNew
  by_cases ht : type = 0
  · simp only [if_pos ht, forall_prop_of_true ht]
    exact bind_eq_ite (trace_isSome strings)
  · rw [if_neg ht, if_neg ht, if_pos fun h => absurd h ht, List.append_nil]
    rfl

/-- What a callback does. -/
theorem event_eq (s : State len) (e : Event) :
    event s json e = (serveEvents json (serviceOf s) [e]).map (after s [e]) := by
  rw [serveEvents_singleton]
  have hquiet {x : Option (State len)} (hs : service e = none)
      (hx : x = if Traces e then some (after s [e] (serviceOf s)) else none) :
      x = (if Traces e then serve json (serviceOf s) (service e).toList else none).map (after s [e]) := by
    rw [hs, hx]
    split <;> rfl
  cases e with
  | serviceRequest addrs serviceid serviceidLen request =>
    have hh : Spec.Solo.handle json ⟨addrs, serviceid, serviceidLen, request⟩ (serviceOf s).heap =
      Impl.Solo.userServiceRequestEventHandler json addrs serviceid serviceidLen request s.heap := rfl
    refine (bind_eq_ite printed_isSome).trans ?_
    show (if Ends serviceidLen serviceid then _ else none) =
      Option.map _ (if Ends serviceidLen serviceid then _ else none)
    split
    · rw [service, Option.toList_some, serve_cons, Spec.Solo.step, hh]
      cases Impl.Solo.userServiceRequestEventHandler json addrs serviceid serviceidLen request s.heap with
      | none => rfl
      | some r => exact congrArg some (after_quiet s (e := .serviceRequest addrs serviceid serviceidLen request) rfl
          ⟨r.2.2, (r.2.1.map Impl.Solo.Response.addr).toList ++ s.responses⟩).symm
    · rfl
  | freeResponse addr =>
    rw [event, if_pos (show Traces (.freeResponse addr) from trivial), service, Option.toList_some, serve_cons,
      Spec.Solo.step]
    by_cases hm : addr ∈ s.responses
    · rw [if_pos hm, if_pos (show addr ∈ (serviceOf s).held from hm)]
      exact congrArg some (after_quiet s (e := .freeResponse addr) rfl
        ⟨s.heap.close addr, s.responses.erase addr⟩).symm
    · rw [if_neg hm, if_neg (show addr ∉ (serviceOf s).held from hm)]
      rfl
  | propertySet request requestLen =>
    refine hquiet rfl ((bind_eq_ite (trace_isSome _)).trans ?_)
    simp only [List.forall_mem_singleton]
    rfl
  | reportReply reply replyLen =>
    refine hquiet rfl ((bind_eq_ite printed_isSome).trans ?_)
    have hends := ends_reply reply replyLen
    show (if Ends replyLen _ then _ else _) = if ∀ text ∈ reply, Ends replyLen text then _ else _
    simp only [hends]
    rw [after_quiet s rfl]
    rfl
  | triggerEventReply eventid eventidLen message messageLen =>
    refine hquiet rfl ((bind_eq_ite printed_isSome).trans ?_)
    have hmessage : (printed messageLen.toInt message).bind (fun _ => some s) =
        if Ends messageLen message then some s else none := bind_eq_ite printed_isSome
    show (if Ends eventidLen eventid then (printed messageLen.toInt message).bind fun _ => some s else none) = _
    rw [hmessage, ← ite_and, after_quiet s rfl]
    rfl
  | timestampReply timestamp =>
    refine hquiet rfl ((bind_eq_ite (trace_isSome _)).trans ?_)
    simp only [List.forall_mem_singleton]
    rw [after_quiet s rfl]
    rfl
  | fota type version =>
    refine hquiet rfl ((queryNew_eq s .queryFotaData type [version]).trans ?_)
    simp only [List.forall_mem_singleton, after, List.flatMap_singleton]
    rfl
  | cota type configId getType sign signMethod url =>
    refine hquiet rfl ((queryNew_eq s .queryCotaData type [configId, getType, sign, signMethod, url]).trans ?_)
    rw [after, List.flatMap_singleton]
    rfl
  | connectSucc => exact hquiet rfl (congrArg some (after_quiet s (e := .connectSucc) rfl (serviceOf s)).symm)
  | disconnected => exact hquiet rfl (congrArg some (after_quiet s (e := .disconnected) rfl (serviceOf s)).symm)
  | initializeCompleted =>
    exact hquiet rfl (congrArg some (after_quiet s (e := .initializeCompleted) rfl (serviceOf s)).symm)

/-- What the callbacks of a turn do. -/
theorem events_eq (s : State len) (es : List Event) :
    es.foldlM (event · json) s = (serveEvents json (serviceOf s) es).map (after s es) := by
  induction es generalizing s with
  | nil =>
    rw [serveEvents_nil]
    show some s = some (after s [] (serviceOf s))
    rw [after, List.flatMap_nil, List.append_nil]
    rfl
  | cons e es ih =>
    rw [List.foldlM_cons, event_eq, show serveEvents json (serviceOf s) (e :: es) = _ from serveEvents_append [e] es]
    show Option.bind (Option.map _ _) _ = _
    rw [Option.bind_map, Option.map_bind]
    refine congrArg _ (funext fun v => ?_)
    show es.foldlM (event · json) (after s [e] v) = Option.map _ _
    rw [ih]
    refine congrArg (Option.map · _) (funext fun v' => ?_)
    show after (after s [e] v) es v' = after s (e :: es) v'
    simp [after]

/-! ## Turns -/

/-- Before turn `i` of the loop. -/
structure At (i : Nat) (s : State len) : Prop where
  cnt : s.cnt = Int32.ofNat i
  counter : s.counter = Int32.ofNat ((i + 1) / 2)

/-- After turn `i`, which leaves the service in `v`. -/
def turned (i : Nat) (s : State len) (events : List Event) (v : Spec.Solo.State) : State len :=
  { after s events v with
    counter := Int32.ofNat ((i + 2) / 2)
    cnt := Int32.ofNat (i + 1)
    calls := s.calls ++ turnCalls i events }

theorem toInt_ofNat {n : Nat} (h : n < 0x80000000) : (Int32.ofNat n).toInt = n := Int32.toInt_ofNat_of_lt h

theorem add_one {n : Nat} (h : n + 1 < 0x80000000) : add (Int32.ofNat n) 1 = some (Int32.ofNat (n + 1)) := by
  have hn := toInt_ofNat (show n < 0x80000000 by omega)
  have h₁ : (1 : Int32).toInt = 1 := by decide
  rw [add, hn, h₁, if_pos (by omega), Int32.ofNat_add]
  rfl

/-- The whole property fits in its array. -/
theorem userPostProperty_eq {k : Nat} (hs : s.counter = Int32.ofNat k) (hk : k + 1 < 0x80000000) :
    userPostProperty s = some ({ s with
      counter := Int32.ofNat (k + 1)
      calls := s.calls ++
        [.report 0 .postProperty (counterText k) (Int32.ofNat (counterText k).length)] }) := by
  have hdec := length_decimalText_le (show (k : Int).natAbs < 10000000000 by omega)
  have hlen : (counterText k).length ≤ 24 := by
    have h₁ : (ascii "\x7b\"Counter\": ").length = 12 := by decide +kernel
    have h₂ : (ascii "\x7d").length = 1 := by decide
    rw [counterText, List.length_append, List.length_append]
    omega
  have hnul : 0 ∉ counterText k := by
    rw [counterText, List.mem_append, List.mem_append, not_or, not_or]
    exact ⟨⟨by decide +kernel, fun h => (inLine_decimalText _ 0 h).1 rfl⟩, by decide⟩
  have hbytes : (Buf.ofList 30 (counterText k ++ [0])).bytes =
      counterText k ++ 0 :: zeros (30 - (counterText k ++ [0]).length) := by
    rw [Buf.bytes_ofList (by rw [List.length_append, List.length_singleton]; omega), List.append_assoc,
      List.singleton_append]
  unfold userPostProperty
  rw [hs, toInt_ofNat (show k < 0x80000000 by omega), add_one hk]
  dsimp only
  rw [← counterText, List.take_of_length_le (Nat.le_trans hlen (by decide)),
    Buf.memcpy_zero (by rw [List.length_append, List.length_singleton]; omega) (Nat.le_refl _), List.take_length]
  simp only [Option.bind_eq_bind, Option.bind_some, hbytes, strlen_string hnul, List.take_left]
  rfl

/-- A property in every second turn. -/
theorem postProperty_eq {i : Nat} (h : At i s) (hi : i < turnCount) :
    (if s.cnt.toInt % 2 = 0 then userPostProperty s else some s) = some ({ s with
      counter := Int32.ofNat ((i + 2) / 2)
      calls := s.calls ++ if i % 2 = 0 then
        [.report 0 .postProperty (counterText (i / 2)) (Int32.ofNat (counterText (i / 2)).length)] else [] }) := by
  have hi' : i < 3601 := hi
  have hn : s.cnt.toInt = i := by rw [h.cnt, toInt_ofNat (by omega)]
  rw [hn]
  by_cases hp : i % 2 = 0
  · have hc : s.counter = Int32.ofNat (i / 2) := by rw [h.counter, show (i + 1) / 2 = i / 2 by omega]
    rw [if_pos (by omega), if_pos hp, userPostProperty_eq hc (by omega), show i / 2 + 1 = (i + 2) / 2 by omega]
  · rw [if_neg (by omega), if_neg hp, List.append_nil, show (i + 2) / 2 = (i + 1) / 2 by omega, ← h.counter]

/-- An event in every tenth. -/
theorem postEvent_eq {i : Nat} (h : s.cnt = Int32.ofNat i) (hi : i < turnCount) :
    (if s.cnt.toInt % 10 = 0 then userPostEvent s else s) = { s with
      calls := s.calls ++ if i % 10 = 0 then
        [.triggerEvent 0 (ascii "HardwareError") (ascii "\x7b\"ErrorCode\": 0\x7d")] else [] } := by
  have hi' : i < 3601 := hi
  have hn : s.cnt.toInt = i := by rw [h, toInt_ofNat (by omega)]
  rw [hn]
  by_cases hp : i % 10 = 0
  · rw [if_pos (by omega), if_pos hp]
    rfl
  · rw [if_neg (by omega), if_neg hp, List.append_nil]

theorem turn_eq {i : Nat} (h : At i s) (hi : i < turnCount) (events : List Event) :
    turn s json events = (serveEvents json (serviceOf s) events).map fun v =>
      (decide (i + 1 < turnCount), turned i s events v) := by
  have hi' : i < 3601 := hi
  unfold turn
  rw [events_eq, show serviceOf (s.call (.yield exampleYieldTimeoutMs)) = serviceOf s from rfl]
  cases serveEvents json (serviceOf s) events with
  | none => rfl
  | some v =>
    have hat : At i (after (s.call (.yield exampleYieldTimeoutMs)) events v) := ⟨h.cnt, h.counter⟩
    obtain ⟨s₂, hpost, hs₂⟩ : ∃ s₂, _ = some s₂ ∧ s₂ = _ := ⟨_, postProperty_eq hat hi, rfl⟩
    have hcnt : s₂.cnt = Int32.ofNat i := hs₂ ▸ hat.cnt
    have hs₃ := postEvent_eq hcnt hi
    have hgt : Int32.ofNat (i + 1) > 3600 ↔ ¬ i + 1 < turnCount := by
      rw [GT.gt, Int32.lt_iff_toInt_lt, toInt_ofNat (by omega)]
      have h₁ : (3600 : Int32).toInt = 3600 := by decide
      show _ ↔ ¬ i + 1 < 3601
      omega
    show Option.bind (some _) _ = some _
    rw [Option.bind_some]
    show Option.bind _ _ = some _
    rw [hpost, Option.bind_some]
    dsimp only
    generalize (if s₂.cnt.toInt % 10 = 0 then userPostEvent s₂ else s₂) = s₃ at hs₃ ⊢
    rw [show s₃.cnt = Int32.ofNat i from hs₃ ▸ hcnt, add_one (by omega)]
    show some _ = some _
    refine congrArg some ?_
    by_cases hlast : i + 1 < turnCount
    · rw [if_neg fun hg => hgt.mp hg hlast]
      subst hs₃ hs₂
      simp [turned, after, turnCalls, posts, hlast, State.call]
    · rw [if_pos (hgt.mpr hlast)]
      subst hs₃ hs₂
      simp [turned, after, turnCalls, posts, hlast, State.call]

theorem turned_at {i : Nat} (s : State len) (events : List Event) (v : Spec.Solo.State) :
    At (i + 1) (turned i s events v) := ⟨rfl, rfl⟩

theorem turned_masterDevid {i : Nat} (s : State len) (events : List Event) (v : Spec.Solo.State) :
    (turned i s events v).ctx.masterDevid = s.ctx.masterDevid := by
  show (events.foldl ctxAfter s.ctx).masterDevid = _
  generalize s.ctx = ctx
  induction events generalizing ctx with
  | nil => rfl
  | cons e es ih => rw [List.foldl_cons, ih, ctxAfter_masterDevid]

/-- The loop from turn `i` on: it is defined if the service is, and does the turns
that are left. -/
theorem mainLoop_eq {i : Nat} (h : At i s) (hi : i < turnCount) (turns : List (List Event)) :
    match serveEvents json (serviceOf s) (turns.take (turnCount - i)).flatten with
    | none => mainLoop json s turns = none
    | some v => ∃ s', mainLoop json s turns = some (decide (turnCount ≤ i + turns.length), s') ∧ serviceOf s' = v ∧
        s'.calls = s.calls ++ turnsCalls i (turns.take (turnCount - i)) ∧ s'.ctx.masterDevid = s.ctx.masterDevid := by
  induction turns generalizing i s with
  | nil =>
    rw [List.take_nil, List.flatten_nil, serveEvents_nil]
    refine ⟨s, ?_, rfl, (List.append_nil _).symm, rfl⟩
    have hn : ¬ turnCount ≤ i + ([] : List (List Event)).length := Nat.not_le_of_lt hi
    rw [mainLoop, decide_eq_false hn]
  | cons events turns ih =>
    have hi' : i < 3601 := hi
    rw [show turnCount - i = turnCount - (i + 1) + 1 by omega, List.take_succ_cons, List.flatten_cons,
      serveEvents_append, mainLoop, turn_eq h hi, List.length_cons]
    cases serveEvents json (serviceOf s) events with
    | none => rfl
    | some v =>
      show match serveEvents json v _ with
        | none => Option.bind (some _) _ = _
        | some v' => ∃ s', Option.bind (some _) _ = _ ∧ _
      rw [Option.bind_some]
      by_cases hlast : i + 1 < turnCount
      · have hturn := ih (turned_at s events v) hlast
        change match serveEvents json v _ with | none => _ | some v' => _ at hturn
        simp only [decide_eq_true hlast, if_true]
        cases hr : serveEvents json v (turns.take (turnCount - (i + 1))).flatten with
        | none =>
          rw [hr] at hturn
          exact hturn
        | some v' =>
          rw [hr] at hturn
          obtain ⟨s', hloop, hv, hcalls, hdevid⟩ := hturn
          refine ⟨s', ?_, hv, ?_, hdevid.trans (turned_masterDevid s events v)⟩
          · rw [hloop, Nat.add_right_comm, ← Nat.add_assoc]
          · rw [hcalls, turnsCalls, ← List.append_assoc]
            rfl
      · have hzero : turnCount - (i + 1) = 0 := Nat.sub_eq_zero_of_le (Nat.le_of_not_lt hlast)
        have hend : turnCount ≤ i + (turns.length + 1) := by
          show 3601 ≤ _
          have : ¬ i + 1 < 3601 := hlast
          omega
        simp only [decide_eq_false hlast, Bool.false_eq_true, if_false, hzero, List.take_zero, List.flatten_nil,
          serveEvents_nil]
        refine ⟨turned i s events v, ?_, rfl, ?_, turned_masterDevid s events v⟩
        · rw [decide_eq_true hend]
          rfl
        · rw [turnsCalls, turnsCalls, List.append_nil]
          rfl

/-! ## The program -/

section

variable {config : Config} {sdk : Sdk} {texts : Texts} {turns : List (List Event)}

/-- The state before the loop, after calls. -/
def started (sdk : Sdk) (calls : List (Call len)) : State len where
  ctx := { masterDevid := sdk.openMaster }
  calls := calls

/-- What is called before the SDK is opened. -/
def preparing (config : Config) : List (Call len) :=
  .setLogLevel .debug :: (if config.atmEnabled then [.atmInit] else []) ++ provisionCalls config

theorem doForgetSsidPasswd_eq (s : State len) : doForgetSsidPasswd s = { s with
    calls := s.calls ++ [.system (ascii "nmcli connection down linkkit"),
      .system (ascii "nmcli connection delete linkkit"), .sleep 15, .scanf] } := by
  have hdown : snprintf 128 "nmcli connection down %s" [ascii "linkkit"] = ascii "nmcli connection down linkkit" := by
    decide +kernel
  have hdelete : snprintf 128 "nmcli connection delete %s" [ascii "linkkit"] =
      ascii "nmcli connection delete linkkit" := by decide +kernel
  simp only [doForgetSsidPasswd, hdown, hdelete, State.call, List.append_assoc]
  rfl

theorem provision_eq (s : State len) (config : Config) :
    provision s config = { s with calls := s.calls ++ provisionCalls config } := by
  rw [provision, provisionCalls, doForgetSsidPasswd_eq]
  split
  · simp only [State.call, List.append_assoc]
    rfl
  · rw [List.append_nil]

theorem openDevice_eq (s : State len) (texts : Texts) (devid : Int32) :
    openDevice s (metaInfoOf texts) devid = { s with
      ctx := { s.ctx with masterDevid := devid }
      calls := s.calls ++ setupCalls texts } := by
  simp only [openDevice, registered, setupCalls, List.foldl_cons, List.foldl_nil, State.call, List.append_assoc]
  rfl

/-- A program that cannot have its `AT` module reads no credentials. -/
theorem main_of_not_setsUp (hset : ¬ SetsUp config sdk) :
    (main json config sdk texts turns : Option (Option Int32 × State len)) =
      some (some (-1), { calls := [.setLogLevel .debug, .atmInit] }) := by
  have hatm : config.atmEnabled = true ∧ sdk.atmInit < 0 := not_not.mp hset
  unfold main
  refine (if_pos hatm).trans ?_
  rw [hatm.1]
  rfl

theorem main_of_not_fits (hset : SetsUp config sdk) (h : ¬ Fits len texts) :
    (main json config sdk texts turns : Option (Option Int32 × State len)) = none := by
  unfold main
  refine (if_neg hset).trans ?_
  cases hm : (masterMetaInfo texts : Option (MetaInfo len)) with
  | none => rfl
  | some m => exact absurd (fits_of_masterMetaInfo hm) h

theorem main_eq (hset : SetsUp config sdk) (h : Fits len texts) :
    (main json config sdk texts turns : Option (Option Int32 × State len)) =
      let s := started sdk (preparing config ++ setupCalls texts)
      if sdk.openMaster < 0 then some (some (-1), s)
      else
        let s := s.call (.connect sdk.openMaster)
        if sdk.connect < 0 then some (some (-1), s)
        else
          (mainLoop json (if config.wifiProvisionEnabled then s.call .awssReportReset else s) turns).map fun p =>
            if p.1 then (some 0, closeDevice p.2) else (none, p.2) := by
  have hopen : openDevice { provision (if config.atmEnabled then
      State.call (State.call {} (.setLogLevel .debug)) .atmInit else State.call {} (.setLogLevel .debug)) config with
        ctx := {} } (metaInfoOf texts) sdk.openMaster =
      (started sdk (preparing config ++ setupCalls texts) : State len) := by
    rw [openDevice_eq, provision_eq, started, preparing]
    cases config.atmEnabled <;> rfl
  unfold main
  rw [masterMetaInfo_eq h]
  refine (if_neg hset).trans ?_
  show (if _ then _ else _) = _
  rw [hopen]
  by_cases ho : sdk.openMaster < 0
  · rw [if_pos ho]
    exact if_pos ho
  rw [if_neg ho]
  refine (if_neg ho).trans ?_
  by_cases hc : sdk.connect < 0
  · rw [if_pos hc, if_pos hc]
    rfl
  · rw [if_neg hc, if_neg hc, Option.map_eq_bind]
    rfl

/-- What the loop is given. -/
def looping (config : Config) (sdk : Sdk) (texts : Texts) : State len :=
  started sdk (preparing config ++ setupCalls texts ++ .connect sdk.openMaster ::
    if config.wifiProvisionEnabled then [.awssReportReset] else [])

theorem looping_eq (config : Config) (sdk : Sdk) (texts : Texts) :
    (if config.wifiProvisionEnabled then
        ((started sdk (preparing config ++ setupCalls texts)).call (.connect sdk.openMaster)).call .awssReportReset
      else (started sdk (preparing config ++ setupCalls texts)).call (.connect sdk.openMaster)) =
      (looping config sdk texts : State len) := by
  unfold looping
  split
  · simp only [State.call, started, List.append_assoc]
    rfl
  · rfl

theorem programCalls_eq (hset : SetsUp config sdk) : (programCalls config sdk texts turns : List (Call len)) =
    preparing config ++ (setupCalls texts ++ if sdk.openMaster < 0 then []
      else .connect sdk.openMaster :: if sdk.connect < 0 then [] else loopCalls config sdk turns) := by
  rw [programCalls, if_neg (not_not.mpr hset), preparing]
  simp only [List.cons_append, List.append_assoc]

theorem serveEvents_isSome (turns : List (List Event)) :
    (serveEvents json ⟨.none, []⟩ (turns.take turnCount).flatten).isSome = true ↔
      (∀ e ∈ (turns.take turnCount).flatten, Traces e) ∧
        (serve json ⟨.none, []⟩ (services turns)).isSome = true := by
  unfold serveEvents
  split
  · rename_i ht
    exact (and_iff_right ht).symm
  · rename_i ht
    exact iff_of_false Bool.false_ne_true fun hs => ht hs.1

theorem serve_of_serveEvents {events : List Event} {v' : Spec.Solo.State} (h : serveEvents json v events = some v') :
    serve json v (events.filterMap service) = some v' := by
  unfold serveEvents at h
  split at h
  · exact h
  · cases h

/-- A program that gets to its loop. -/
theorem loop_performs (hstarts : Starts config sdk) (hfits : Fits len texts) :
    ((main json config sdk texts turns : Option (Option Int32 × State len)).isSome = true ↔
      (serveEvents json ⟨.none, []⟩ (turns.take turnCount).flatten).isSome = true) ∧
    ∀ ret (s : State len), main json config sdk texts turns = some (ret, s) →
      Performs json config sdk texts turns ret s := by
  obtain ⟨hset, ho, hc⟩ := hstarts
  rw [main_eq hset hfits]
  dsimp only
  rw [if_neg ho, if_neg hc, looping_eq]
  have hat : At 0 (looping config sdk texts : State len) := ⟨rfl, rfl⟩
  have hloop : match serveEvents json ⟨.none, []⟩ (turns.take turnCount).flatten with | none => _ | some v => _ :=
    mainLoop_eq hat (by decide) turns
  cases hv : serveEvents json ⟨.none, []⟩ (turns.take turnCount).flatten with
  | none =>
    rw [hv] at hloop
    rw [hloop]
    exact ⟨Iff.rfl, fun ret s hs => by cases hs⟩
  | some v =>
    rw [hv] at hloop
    obtain ⟨s', hloop, rfl, hcalls, hdevid⟩ := hloop
    rw [hloop, Nat.zero_add]
    refine ⟨Iff.rfl, fun ret s hs => ?_⟩
    have hs := Option.some.inj hs
    have hne : ¬ (¬ SetsUp config sdk ∨ sdk.openMaster < 0 ∨ sdk.connect < 0) :=
      not_or.mpr ⟨not_not.mpr hset, not_or.mpr ⟨ho, hc⟩⟩
    have hservice : serve json ⟨.none, []⟩ (services turns) = some (serviceOf s') := serve_of_serveEvents hv
    have hprogram : programCalls config sdk texts turns = s'.calls ++
        if turnCount ≤ turns.length then [.close sdk.openMaster, .dumpMemoryStats .debug, .setLogLevel .none]
        else [] := by
      rw [programCalls_eq hset, if_neg ho, if_neg hc, hcalls, looping, started, loopCalls]
      simp only [List.append_assoc, List.cons_append]
      rfl
    dsimp only at hs
    by_cases hend : turnCount ≤ turns.length
    · rw [if_pos (decide_eq_true hend)] at hs
      cases hs
      refine ⟨by rw [programRet, if_neg hne, if_pos hend], ?_, fun _ => hservice⟩
      rw [hprogram, if_pos hend, closeDevice, hdevid]
      simp only [State.call, List.append_assoc]
      rfl
    · rw [if_neg (by simpa using hend)] at hs
      cases hs
      refine ⟨by rw [programRet, if_neg hne, if_neg hend], ?_, fun _ => hservice⟩
      rw [hprogram, if_neg hend, List.append_nil]

/-- One that gives up at `IOT_Linkkit_Open` or at `IOT_Linkkit_Connect`. -/
theorem gives_up (hset : SetsUp config sdk) (hfits : Fits len texts) (hstarts : ¬ Starts config sdk) :
    (main json config sdk texts turns : Option (Option Int32 × State len)).isSome = true ∧
    ∀ ret (s : State len), main json config sdk texts turns = some (ret, s) →
      Performs json config sdk texts turns ret s := by
  rw [main_eq hset hfits]
  dsimp only
  by_cases ho : sdk.openMaster < 0
  · rw [if_pos ho]
    refine ⟨rfl, fun ret s hs => ?_⟩
    cases hs
    refine ⟨by rw [programRet, if_pos (.inr (.inl ho))], ?_, fun hs => absurd hs hstarts⟩
    rw [programCalls_eq hset, if_pos ho, List.append_nil]
    rfl
  · have hc : sdk.connect < 0 := by
      by_contra hc
      exact hstarts ⟨hset, ho, hc⟩
    rw [if_neg ho, if_pos hc]
    refine ⟨rfl, fun ret s hs => ?_⟩
    cases hs
    refine ⟨by rw [programRet, if_pos (.inr (.inr hc))], ?_, fun hs => absurd hs hstarts⟩
    rw [programCalls_eq hset, if_neg ho, if_pos hc, ← List.append_assoc]
    rfl

/-- The program is free of undefined behaviour if it is `Safe`, and does what it
should whatever else the SDK does. -/
theorem main_performs (json : CJson J) (config : Config) (sdk : Sdk) (texts : Texts) (turns : List (List Event)) :
    ((main json config sdk texts turns : Option (Option Int32 × State len)).isSome = true ↔
      Safe json len config sdk texts turns) ∧
    ∀ ret (s : State len), main json config sdk texts turns = some (ret, s) →
      Performs json config sdk texts turns ret s := by
  by_cases hset : SetsUp config sdk
  · by_cases hfits : Fits len texts
    · have hsafe : Safe json len config sdk texts turns ↔ (Starts config sdk →
          (serveEvents json ⟨.none, []⟩ (turns.take turnCount).flatten).isSome = true) := by
        simp only [Safe, forall_prop_of_true hset, and_iff_right hfits, serveEvents_isSome]
      rw [hsafe]
      by_cases hstarts : Starts config sdk
      · rw [forall_prop_of_true hstarts]
        exact loop_performs hstarts hfits
      · obtain ⟨hsome, hperforms⟩ := @gives_up _ json len config sdk texts turns hset hfits hstarts
        exact ⟨iff_of_true hsome fun h => absurd h hstarts, hperforms⟩
    · rw [main_of_not_fits hset hfits]
      exact ⟨iff_of_false Bool.false_ne_true fun h => hfits (h hset).1, fun ret s hs => by cases hs⟩
  · rw [main_of_not_setsUp hset]
    refine ⟨iff_of_true rfl fun h => absurd h hset, fun ret s hs => ?_⟩
    cases hs
    refine ⟨by rw [programRet, if_pos (.inl hset)], ?_, fun hs => absurd hs.1 hset⟩
    have hatm : config.atmEnabled = true ∧ sdk.atmInit < 0 := not_not.mp hset
    rw [programCalls, if_pos hset, if_pos hatm.1]
    rfl

end

end

end Linkkit.Proof.Example
