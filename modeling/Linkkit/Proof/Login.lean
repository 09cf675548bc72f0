import Linkkit.Impl.GoSign
import Linkkit.Spec.Login
import Linkkit.Spec.MqttSign
import Linkkit.Proof.Sign.Password

/-!
# The credentials of every signer log its device in

A broker of the documented kind verifies the credentials that have a client id of
fields that can be told apart (`logsIn_of_fields`). Each signer writes such a
client id: the C signer (`aiotMqttSign_logsIn`), those in Java and C#
(`calculate_logsIn`) and those in Go (`calculateSign_logsIn`).
-/

namespace Linkkit.Proof.Login

open Spec Spec.Login
open Spec.Sign (hexDigit upperHex lower hexValue fromHex)

/-! ## What the broker is relied on for -/

section

variable {α : Type*} {a : Alphabet α}

/-- A field with a value that holds no separator. -/
theorem readable_of_value {unit : Char → α} {key value : List α} (hkey : Readable unit (key, []))
    (hcomma : unit ',' ∉ value) (hbar : unit '|' ∉ value) : Readable unit (key, value) := by
  unfold Readable writeField at hkey ⊢
  simp only [List.mem_append, List.mem_cons, List.not_mem_nil, or_false, not_or] at hkey ⊢
  exact ⟨⟨hkey.1.1, hkey.1.2, hcomma⟩, ⟨hkey.2.1.1, hkey.2.1.2, hbar⟩, hkey.2.2⟩

variable [DecidableEq α]

/-- Credentials with such a client id, and the user name and password they should
have. -/
theorem logsIn_of_fields {broker : Broker α} (hbroker : Documented a broker)
    {mac : List α → List α → List Byte} {id productKey deviceName timestamp secret method password : List α}
    {params : List (List α × List α)} (hname : a.unit '&' ∉ deviceName) (hid : a.unit '|' ∉ id)
    (hkeys : (params.map Prod.fst).Nodup) (hread : ∀ f ∈ params, Readable a.unit f)
    (htime : params.lookup (text a.unit "timestamp") = some timestamp)
    (hmethod : params.lookup (text a.unit "signmethod") = some method) (hmac : broker.mac method = some mac)
    (hpassword : a.digits password = some (mac (signed a.unit id productKey deviceName timestamp) secret)) :
    LogsIn a broker mac id productKey deviceName timestamp secret
      ⟨writeClientid a.unit id params, deviceName ++ a.unit '&' :: productKey, password⟩ := by
  constructor
  · rintro ⟨productKey', deviceName'⟩ h
    obtain ⟨huser, hname'⟩ := hbroker.named _ _ _ h
    -- both names end at the first `&` of the user name
    have hcut := cut_append hname productKey
    rw [show deviceName ++ a.unit '&' :: productKey = deviceName' ++ a.unit '&' :: productKey' from huser,
      cut_append hname', Option.some.injEq, Prod.mk.injEq] at hcut
    rw [hcut.1, hcut.2]
  · rw [hbroker.verified id params productKey deviceName timestamp method mac password hname hid hkeys hread htime
      hmethod hmac, hpassword]
    simp only [Option.some.injEq, eq_comm]

/-! ## The broker that reads the client id -/

theorem readClientid_write {unit : Char → α} {id : List α} {params : List (List α × List α)} (hid : unit '|' ∉ id)
    (hne : params ≠ []) (hsep : unit '|' ≠ unit ',') (hread : ∀ f ∈ params, Readable unit f) :
    readClientid unit (writeClientid unit id params) = some (id, params) := by
  have hbar : unit '|' ∉ writeFields (unit ',') (unit '=') params :=
    notMem_writeFields hsep fun f hf => (hread f hf).2.1
  have hfields := readFields_writeFields hne fun f hf => ⟨(hread f hf).1, (hread f hf).2.2⟩
  simp only [readClientid, writeClientid, cut_append hid, cut_append hbar, hfields, Option.bind_eq_bind,
    Option.bind_some, if_true]
  rfl

/-- It is one of the documented kind. -/
theorem readingBroker_documented (hsep : a.unit '|' ≠ a.unit ',') (secret : List α → List α → Option (List α))
    (mac : List α → Option (List α → List α → List Byte)) : Documented a (readingBroker a secret mac) := by
  constructor
  · intro login productKey deviceName h
    obtain ⟨names, hnames, h⟩ := Option.bind_eq_some_iff.mp h
    obtain ⟨parts, -, h⟩ := Option.bind_eq_some_iff.mp h
    obtain ⟨timestamp, -, h⟩ := Option.bind_eq_some_iff.mp h
    obtain ⟨method, -, h⟩ := Option.bind_eq_some_iff.mp h
    obtain ⟨f, -, h⟩ := Option.bind_eq_some_iff.mp h
    obtain ⟨key, -, h⟩ := Option.bind_eq_some_iff.mp h
    split at h
    · cases h
      exact ⟨append_of_cut hnames, notMem_of_cut hnames⟩
    · cases h
  · intro id params productKey deviceName timestamp method f password hname hid _ hread htime hmethod hmac
    have hne : params ≠ [] := by
      rintro rfl
      cases htime
    have haccepts : (readingBroker a secret mac).accepts
        ⟨writeClientid a.unit id params, deviceName ++ a.unit '&' :: productKey, password⟩ =
          (secret productKey deviceName).bind fun key =>
            if a.digits password = some (f (signed a.unit id productKey deviceName timestamp) key) then
              some (productKey, deviceName)
            else none := by
      simp only [readingBroker, cut_append hname, readClientid_write hid hne hsep hread, htime, hmethod,
        show mac method = some f from hmac, Option.bind_eq_bind, Option.bind_some]
      rfl
    rw [haccepts, Option.bind_eq_some_iff]
    show _ ↔ True ∧ _
    rw [true_and]
    refine exists_congr fun key => and_congr_right fun _ => ?_
    split
    · rename_i he
      exact iff_of_true rfl he
    · rename_i he
      exact iff_of_false nofun he

/-- The one method it knows. -/
theorem readingBroker_mac (secret : List α → List α → Option (List α)) (method : List α)
    (f : List α → List α → List Byte) :
    (readingBroker a secret fun m => if m = method then some f else none).mac method = some f := if_pos rfl

end

/-! ## Passwords -/

theorem hexValue_lower (c : Byte) : hexValue (lower c) = hexValue c := by
  have hall : ∀ n < 256, hexValue (lower (UInt8.ofNat n)) = hexValue (UInt8.ofNat n) := by decide +kernel
  have h := hall c.toNat c.toNat_lt
  rwa [UInt8.ofNat_toNat] at h

theorem fromHex_map_lower (l : List Byte) : fromHex (l.map lower) = fromHex l := by
  fun_induction fromHex l with
  | case1 => rfl
  | case2 => rfl
  | case3 hi lo cs ih => simp only [List.map_cons, fromHex, hexValue_lower, ih]

/-- Two lower-case digits for a byte, as `%02x` prints it. -/
theorem fromHex_sprintf02x (bs : List Byte) : fromHex (Impl.GoSign.sprintf02x bs) = some bs := by
  have hdigit : ∀ d < 16, lower (hexDigit d) = (Nat.digitChar d).toNat.toUInt8 := by decide
  have hlower : Impl.GoSign.sprintf02x bs = (upperHex bs).map lower := by
    rw [Impl.GoSign.sprintf02x, upperHex, List.map_flatMap]
    refine List.flatMap_congr fun b _ => ?_
    obtain ⟨hh, hl⟩ := Sign.byte_digits b
    rw [List.map_cons, List.map_cons, List.map_nil, hdigit _ hh, hdigit _ hl]
  rw [hlower, fromHex_map_lower, Sign.fromHex_upperHex]

/-- Every digit is ASCII. -/
theorem lower_upperHex_lt (bs : List Byte) : ∀ c ∈ upperHex bs, c.toUInt16 < 0x80 ∧ (lower c).toUInt16 < 0x80 := by
  have hdigit : ∀ d < 16, (hexDigit d).toUInt16 < 0x80 ∧ (lower (hexDigit d)).toUInt16 < 0x80 := by decide
  intro c hc
  obtain ⟨b, -, hb⟩ := List.mem_flatMap.mp hc
  obtain ⟨hh, hl⟩ := Sign.byte_digits b
  simp only [List.mem_cons, List.not_mem_nil, or_false] at hb
  rcases hb with rfl | rfl
  · exact hdigit _ hh
  · exact hdigit _ hl

/-- The digits that C# prints. -/
theorem digits_upper (bs : List Byte) :
    utf16Texts.digits ((upperHex bs).map UInt8.toUInt16) = some bs := by
  have hlt : ((upperHex bs).map UInt8.toUInt16).all (· < 0x80) = true := by
    refine List.all_eq_true.mpr fun c hc => ?_
    obtain ⟨b, hb, rfl⟩ := List.mem_map.mp hc
    exact decide_eq_true (lower_upperHex_lt bs b hb).1
  show (if _ then _ else _) = _
  rw [if_pos hlt, List.map_map]
  have hid : (UInt16.toUInt8 ∘ UInt8.toUInt16) = id := funext fun c => UInt8.toUInt8_toUInt16 c
  rw [hid, List.map_id, Sign.fromHex_upperHex]

/-- The digits that Java prints. -/
theorem digits_passwordOf {bs : List Byte} (h : bs.length = 32) :
    utf16Texts.digits (Impl.MqttSign.passwordOf bs) = some bs := by
  have hne : bs ≠ [] := List.ne_nil_of_length_pos (by omega)
  have htext : Impl.MqttSign.passwordOf bs = ((upperHex bs).map lower).map UInt8.toUInt16 := by
    rw [List.map_map]
    have := Sign.lower_upperHex hne
    rw [h] at this
    exact this.symm
  have hlt : (Impl.MqttSign.passwordOf bs).all (· < 0x80) = true := by
    rw [htext, List.map_map]
    refine List.all_eq_true.mpr fun c hc => ?_
    obtain ⟨b, hb, rfl⟩ := List.mem_map.mp hc
    exact decide_eq_true (lower_upperHex_lt bs b hb).2
  show (if _ then _ else _) = _
  rw [if_pos hlt, htext, List.map_map]
  have hid : (UInt16.toUInt8 ∘ UInt8.toUInt16) = id := funext fun c => UInt8.toUInt8_toUInt16 c
  rw [hid, List.map_id, fromHex_map_lower, Sign.fromHex_upperHex]

/-! ## The C signer -/

section

open Impl.Sign
open Spec.Sign (deviceId)

/-- The parameters in the client id of the C signer. -/
def cParams : List (List Byte × List Byte) :=
  [(ascii "timestamp", ascii "2524608000000"), (ascii "_v", ascii "paho-c-1.0.0"), (ascii "securemode", ascii "3"),
    (ascii "signmethod", ascii "hmacsha256"), (ascii "lan", ascii "C")]

theorem clientId_eq (productKey deviceName : List Byte) : Spec.Sign.clientId productKey deviceName =
    writeClientid byteUnit (deviceId productKey deviceName) cParams := by
  refine congrArg (deviceId productKey deviceName ++ ·) ?_
  decide +kernel

theorem takeWhile_string {s : List Byte} (h : 0 ∉ s) (rest : List Byte) :
    (s ++ 0 :: rest).takeWhile (· ≠ 0) = s := by
  rw [List.takeWhile_append_of_pos]
  · simp
  · intro b hb
    refine decide_eq_true ?_
    rintro rfl
    exact h hb

/-- What the C signer writes into its arrays logs the device in, if neither name
holds a `|` and the device name no `&`. -/
theorem aiotMqttSign_logsIn (context : Impl.Sha256.Context) {productKey deviceName deviceSecret : CString}
    (hp : productKey.bytes.length ≤ 20) (hd : deviceName.bytes.length ≤ 32) (hs : deviceSecret.bytes.length ≤ 64)
    (hbarp : byteUnit '|' ∉ productKey.bytes) (hbard : byteUnit '|' ∉ deviceName.bytes)
    (hamp : byteUnit '&' ∉ deviceName.bytes) (clientId : Buf clientIdMaxLen) (username : Buf usernameMaxLen)
    (password : Buf passwordMaxLen) {broker : Broker Byte} (hbroker : Documented byteTexts broker)
    (hmac : broker.mac (ascii "hmacsha256") = some fun text key => Spec.hmac Sha256.sha256 64 key text) :
    ∃ c u p, aiotMqttSign context (some productKey) (some deviceName) (some deviceSecret)
        ⟨some clientId, some username, some password⟩ = some (0, ⟨some c, some u, some p⟩) ∧
      LogsIn byteTexts broker (fun text key => Spec.hmac Sha256.sha256 64 key text)
        (deviceId productKey.bytes deviceName.bytes) productKey.bytes deviceName.bytes (ascii "2524608000000")
        deviceSecret.bytes (loginOfArrays c u p) := by
  obtain ⟨c, u, p, hr, ⟨restc, hc⟩, ⟨restu, hu⟩, hpw, -⟩ :=
    Sign.aiotMqttSign_writes context clientId username password hp hd hs
  refine ⟨c, u, p, hr, ?_⟩
  have hnp := productKey.noNul
  have hnd := deviceName.noNul
  have hlit : (0 : Byte) ∉ ascii "&" ∧ (0 : Byte) ∉
      ascii "|timestamp=2524608000000,_v=paho-c-1.0.0,securemode=3,signmethod=hmacsha256,lan=C|" := by
    decide +kernel
  have hdev : (0 : Byte) ∉ deviceId productKey.bytes deviceName.bytes := by
    simp only [deviceId, List.mem_append, not_or]
    exact ⟨⟨hnd, hlit.1⟩, hnp⟩
  have hlogin : loginOfArrays c u p = ⟨writeClientid byteUnit (deviceId productKey.bytes deviceName.bytes) cParams,
      deviceName.bytes ++ byteUnit '&' :: productKey.bytes,
      Spec.Sign.password productKey.bytes deviceName.bytes deviceSecret.bytes⟩ := by
    unfold loginOfArrays
    have hclient : (0 : Byte) ∉ Spec.Sign.clientId productKey.bytes deviceName.bytes := fun h =>
      (List.mem_append.mp h).elim hdev hlit.2
    have hpass : (0 : Byte) ∉ Spec.Sign.password productKey.bytes deviceName.bytes deviceSecret.bytes :=
      Sign.upperHex_noNul _
    rw [hc, hu, hpw, takeWhile_string hpass, takeWhile_string hdev, takeWhile_string hclient, clientId_eq]
    simp only [deviceId, List.append_assoc]
    rfl
  rw [hlogin]
  refine logsIn_of_fields hbroker hamp ?_ (by decide +kernel) ?_ rfl rfl hmac ?_
  · show byteUnit '|' ∉ deviceId productKey.bytes deviceName.bytes
    have hamp' : byteUnit '|' ∉ ascii "&" := by decide
    simp only [deviceId, List.mem_append, not_or]
    exact ⟨⟨hbard, hamp'⟩, hbarp⟩
  · show ∀ f ∈ cParams, Readable byteUnit f
    decide +kernel
  · exact Sign.fromHex_upperHex _

/-- A device on a broker that knows it, but by another secret. -/
theorem aiotMqttSign_logsIn_registered :
    let context : Impl.Sha256.Context := ⟨#v[0, 0], Vector.replicate 8 0, Buf.zero 64, 0⟩
    let productKey : CString := ⟨ascii "a1X2bEnP82z", by decide⟩
    let deviceName : CString := ⟨ascii "test_06", by decide⟩
    let deviceSecret : CString := ⟨ascii "wQ1xOzFH3kLdjCTLfi8Xbw4otRz0lHoq", by decide⟩
    let mac := fun text key => Spec.hmac Sha256.sha256 64 key text
    let broker := readingBroker byteTexts (fun _ _ => some (ascii "7jluWm1zql7bt8qK"))
      fun method => if method = ascii "hmacsha256" then some mac else none
    ∃ c u p, aiotMqttSign context (some productKey) (some deviceName) (some deviceSecret)
        ⟨some (Buf.zero 150), some (Buf.zero 64), some (Buf.zero 65)⟩ = some (0, ⟨some c, some u, some p⟩) ∧
      LogsIn byteTexts broker mac (deviceId productKey.bytes deviceName.bytes) productKey.bytes deviceName.bytes
        (ascii "2524608000000") deviceSecret.bytes (loginOfArrays c u p) := by
  intro context productKey deviceName deviceSecret mac broker
  exact aiotMqttSign_logsIn context (by decide) (by decide) (by decide) (by decide) (by decide) (by decide) _ _ _
    (readingBroker_documented (by decide) _ _) (readingBroker_mac _ _ _)

end

/-! ## The Java, Android and C# signers -/

section

open Impl.MqttSign
open Spec.MqttSign (jdkHmac usernameOf)

/-- The characters of a number that the clock gives. -/
theorem mem_decimal {n : Int64} {c : UInt16} (h : c ∈ decimal n) : c = 0x2d ∨ (0x30 ≤ c.toNat ∧ c.toNat ≤ 0x39) := by
  obtain ⟨d, hd, rfl⟩ := List.mem_map.mp h
  have hdigit : d.isDigit = true → 0x30 ≤ d.toNat.toUInt16.toNat ∧ d.toNat.toUInt16.toNat ≤ 0x39 := by
    intro hdig
    simp only [Char.isDigit, ge_iff_le, Bool.and_eq_true, decide_eq_true_eq, UInt32.le_iff_toNat_le] at hdig
    have hv : d.toNat.toUInt16.toNat = d.val.toNat % 65536 := rfl
    have h₁ : '0'.val.toNat = 48 := rfl
    have h₂ : '9'.val.toNat = 57 := rfl
    omega
  rw [Int.toString_eq_repr, Int.repr_eq_if] at hd
  split at hd
  · rw [Nat.toList_repr] at hd
    exact .inr (hdigit (Nat.isDigit_of_mem_toDigits (by decide) (by decide) hd))
  · rw [String.toList_append, List.mem_append, Nat.toList_repr] at hd
    rcases hd with hd | hd
    · obtain rfl : d = '-' := by simpa using hd
      exact .inl rfl
    · exact .inr (hdigit (Nat.isDigit_of_mem_toDigits (by decide) (by decide) hd))

theorem separators_notMem_decimal (n : Int64) : utf16Unit ',' ∉ decimal n ∧ utf16Unit '|' ∉ decimal n := by
  constructor
  · intro h
    have := mem_decimal h
    revert this
    decide
  · intro h
    have := mem_decimal h
    revert this
    decide
/-- The parameters in the client id of a signer of the given version. -/
def utf16Params (version timestamp : Utf16) : List (Utf16 × Utf16) :=
  [(utf16 "timestamp", timestamp), (utf16 "_v", version), (utf16 "securemode", utf16 "2"),
    (utf16 "signmethod", utf16 "hmacsha256")]

theorem clientidOf_eq {v : String} (version : Utf16)
    (hv : utf16 v = utf16 ",_v=" ++ version ++ utf16 ",securemode=2,signmethod=hmacsha256|")
    (productKey deviceName timestamp : Utf16) : clientidOf v productKey deviceName timestamp =
      writeClientid utf16Unit (productKey ++ utf16 "." ++ deviceName) (utf16Params version timestamp) := by
  have htime : utf16 "timestamp=" = utf16 "timestamp" ++ [utf16Unit '='] := by decide
  have hversion : utf16 ",_v=" = utf16Unit ',' :: (utf16 "_v" ++ [utf16Unit '=']) := by decide
  have hrest : utf16 ",securemode=2,signmethod=hmacsha256|" = utf16Unit ',' :: (utf16 "securemode" ++ utf16Unit '=' ::
      (utf16 "2" ++ utf16Unit ',' :: (utf16 "signmethod" ++ utf16Unit '=' :: (utf16 "hmacsha256" ++
        [utf16Unit '|'])))) := by decide +kernel
  have hbar : utf16 "|" = [utf16Unit '|'] := by decide
  simp only [clientidOf, hv, htime, hversion, hrest, hbar, writeClientid, utf16Params, writeFields_cons_cons,
    writeFields_singleton, writeField, List.append_assoc, List.cons_append, List.nil_append]

/-- The credentials of a device, as one of these signers makes them. -/
theorem logsIn_utf16 {version : Utf16} (hversion : Readable utf16Unit (utf16 "_v", version)) (now : Int64)
    {productKey deviceName deviceSecret password : Utf16} (hbarp : utf16Unit '|' ∉ productKey)
    (hbard : utf16Unit '|' ∉ deviceName) (hamp : utf16Unit '&' ∉ deviceName)
    {broker : Broker UInt16} (hbroker : Documented utf16Texts broker)
    {hmacSha256 : Utf16 → Utf16 → List Byte} (hmac : broker.mac (utf16 "hmacsha256") = some hmacSha256)
    (hpassword : utf16Texts.digits password =
      some (hmacSha256 (plainPasswd productKey deviceName (decimal now)) deviceSecret)) :
    LogsIn utf16Texts broker hmacSha256 (productKey ++ utf16 "." ++ deviceName) productKey deviceName
      (decimal now) deviceSecret
      ⟨writeClientid utf16Unit (productKey ++ utf16 "." ++ deviceName) (utf16Params version (decimal now)),
        usernameOf productKey deviceName, password⟩ := by
  have hname : usernameOf productKey deviceName = deviceName ++ utf16Unit '&' :: productKey := by
    simp only [usernameOf, List.append_assoc]
    rfl
  have htext : plainPasswd productKey deviceName (decimal now) =
      signed utf16Unit (productKey ++ utf16 "." ++ deviceName) productKey deviceName (decimal now) := by
    simp only [plainPasswd, signed, List.append_assoc]
    rfl
  rw [hname]
  rw [htext] at hpassword
  have hkeys : [utf16 "timestamp", utf16 "_v", utf16 "securemode", utf16 "signmethod"].Nodup := by decide +kernel
  refine logsIn_of_fields hbroker hamp ?_ hkeys ?_ rfl rfl hmac hpassword
  · show utf16Unit '|' ∉ productKey ++ utf16 "." ++ deviceName
    have hdot : utf16Unit '|' ∉ utf16 "." := by decide
    simp only [List.mem_append, not_or]
    exact ⟨⟨hbarp, hdot⟩, hbard⟩
  · show ∀ f ∈ utf16Params version (decimal now), Readable utf16Unit f
    have htime := separators_notMem_decimal now
    have hrest : Readable utf16Unit (utf16 "securemode", utf16 "2") ∧
        Readable utf16Unit (utf16 "signmethod", utf16 "hmacsha256") := by decide +kernel
    simp only [utf16Params, List.forall_mem_cons]
    exact ⟨readable_of_value (by decide +kernel) htime.1 htime.2, hversion, hrest.1, hrest.2,
      fun f hf => absurd hf List.not_mem_nil⟩

/-- What the Java, the Android and the C# signer leave in their objects logs the
device in, at any time, if neither name holds a `|` and the device name no `&`. -/
theorem calculate_logsIn (now : Int64) (self : Credentials) {productKey deviceName deviceSecret : Utf16}
    (hsecret : deviceSecret ≠ []) (hbarp : utf16Unit '|' ∉ productKey) (hbard : utf16Unit '|' ∉ deviceName)
    (hamp : utf16Unit '&' ∉ deviceName) {broker : Broker UInt16} (hbroker : Documented utf16Texts broker)
    {hmacSha256 : Utf16 → Utf16 → List Byte} (hmac : broker.mac (utf16 "hmacsha256") = some hmacSha256)
    (hlen : ∀ text key, (hmacSha256 text key).length = 32) :
    let promise := fun c => LogsIn utf16Texts broker hmacSha256 (productKey ++ utf16 "." ++ deviceName)
      productKey deviceName (decimal now) deviceSecret (loginOfCredentials c)
    let java := jdkHmac fun text key => passwordOf (hmacSha256 text key)
    let cs := fun text key => some ((Spec.Sign.upperHex (hmacSha256 text key)).map UInt8.toUInt16)
    promise (calculate java now self (some productKey) (some deviceName) (some deviceSecret)) ∧
      (getMqttOption java now self (some productKey) (some deviceName) (some deviceSecret)).1 = true ∧
      promise (getMqttOption java now self (some productKey) (some deviceName) (some deviceSecret)).2 ∧
      ∃ c, calculateCs cs now self (some productKey) (some deviceName) (some deviceSecret) = some (true, c) ∧
        promise c := by
  intro promise java cs
  have hjava text : java text deviceSecret = some (passwordOf (hmacSha256 text deviceSecret)) := if_neg hsecret
  have hdigits text := digits_passwordOf (hlen text deviceSecret)
  have hupper text := digits_upper (hmacSha256 text deviceSecret)
  refine ⟨?_, ?_, ?_, _, rfl, ?_⟩
  · simp only [promise, calculate, hjava]
    rw [loginOfCredentials, clientidOf_eq (utf16 "paho-java-1.0.0") (by decide +kernel)]
    exact logsIn_utf16 (by decide +kernel) now hbarp hbard hamp hbroker hmac (hdigits _)
  · simp only [getMqttOption, hjava]
  · simp only [promise, getMqttOption, hjava]
    rw [loginOfCredentials, clientidOf_eq (utf16 "paho-android-1.0.0") (by decide +kernel)]
    exact logsIn_utf16 (by decide +kernel) now hbarp hbard hamp hbroker hmac (hdigits _)
  · simp only [promise]
    rw [loginOfCredentials, clientidOf_eq (utf16 "paho-c#-1.0.0") (by decide +kernel)]
    exact logsIn_utf16 (by decide +kernel) now hbarp hbard hamp hbroker hmac (hupper _)

/-- The HMAC of the platform, on texts that are ASCII. -/
def asciiHmac (text key : Utf16) : List Byte :=
  Spec.hmac Sha256.sha256 64 (key.map UInt16.toUInt8) (text.map UInt16.toUInt8)

theorem length_asciiHmac (text key : Utf16) : (asciiHmac text key).length = 32 := by
  simp [asciiHmac, Spec.hmac, Sha256.sha256, Sha256.Vars.words]

theorem calculate_logsIn_registered :
    let mac := fun method => if method = utf16 "hmacsha256" then some asciiHmac else none
    let broker := readingBroker utf16Texts (fun _ _ => some (utf16 "secret")) mac
    let promise := fun c => LogsIn utf16Texts broker asciiHmac (utf16 "a1X2bEnP82z" ++ utf16 "." ++ utf16 "test_06")
      (utf16 "a1X2bEnP82z") (utf16 "test_06") (decimal 1575459841629) (utf16 "secret") (loginOfCredentials c)
    let java := jdkHmac fun text key => passwordOf (asciiHmac text key)
    let cs := fun text key => some ((Spec.Sign.upperHex (asciiHmac text key)).map UInt8.toUInt16)
    let pk := some (utf16 "a1X2bEnP82z")
    let dn := some (utf16 "test_06")
    let ds := some (utf16 "secret")
    promise (calculate java 1575459841629 ⟨[], [], []⟩ pk dn ds) ∧
      (getMqttOption java 1575459841629 ⟨[], [], []⟩ pk dn ds).1 = true ∧
      promise (getMqttOption java 1575459841629 ⟨[], [], []⟩ pk dn ds).2 ∧
      ∃ c, calculateCs cs 1575459841629 ⟨[], [], []⟩ pk dn ds = some (true, c) ∧ promise c :=
  calculate_logsIn 1575459841629 ⟨[], [], []⟩ (by decide) (by decide) (by decide) (by decide)
    (readingBroker_documented (by decide) _ _) (readingBroker_mac _ _ _) length_asciiHmac

end

/-! ## The Go signers -/

section

open Impl.GoSign

/-- The parameters in the client id of a Go signer of the given version. -/
def goParams (version timeStamp : List Byte) : List (List Byte × List Byte) :=
  [(ascii "securemode", ascii "2"), (ascii "_v", version), (ascii "signmethod", ascii "hmacsha1"),
    (ascii "timestamp", timeStamp)]

theorem authOf_logsIn (hmacSha1 : List Byte → List Byte → List Byte) {v : String} (version : List Byte)
    (hv : ascii v = ascii "|securemode=2,_v=" ++ version ++ ascii ",signmethod=hmacsha1,timestamp=")
    (hversion : Readable byteUnit (ascii "_v", version))
    {clientId productKey deviceName timeStamp : List Byte} (deviceSecret : List Byte)
    (hid : byteUnit '|' ∉ clientId) (hamp : byteUnit '&' ∉ deviceName) (hcomma : byteUnit ',' ∉ timeStamp)
    (hbar : byteUnit '|' ∉ timeStamp) {broker : Broker Byte} (hbroker : Documented byteTexts broker)
    (hmac : broker.mac (ascii "hmacsha1") = some fun text key => hmacSha1 key text) :
    let auth := authOf hmacSha1 v clientId productKey deviceName deviceSecret timeStamp
    LogsIn byteTexts broker (fun text key => hmacSha1 key text) clientId productKey deviceName timeStamp
      deviceSecret ⟨auth.mqttClientId, auth.username, auth.password⟩ := by
  intro auth
  have hstart : ascii "|securemode=2,_v=" = byteUnit '|' :: (ascii "securemode" ++ byteUnit '=' ::
      (ascii "2" ++ byteUnit ',' :: (ascii "_v" ++ [byteUnit '=']))) := by decide +kernel
  have hrest : ascii ",signmethod=hmacsha1,timestamp=" = byteUnit ',' :: (ascii "signmethod" ++ byteUnit '=' ::
      (ascii "hmacsha1" ++ byteUnit ',' :: (ascii "timestamp" ++ [byteUnit '=']))) := by decide +kernel
  have hend : ascii "|" = [byteUnit '|'] := by decide
  have hclient : auth.mqttClientId = writeClientid byteUnit clientId (goParams version timeStamp) := by
    simp only [auth, authOf, hv, hstart, hrest, hend, writeClientid, goParams, writeFields_cons_cons,
      writeFields_singleton, writeField, List.append_assoc, List.cons_append, List.nil_append]
  have huser : auth.username = deviceName ++ byteUnit '&' :: productKey := by
    simp only [auth, authOf, List.append_assoc]
    rfl
  rw [hclient, huser]
  have hkeys : [ascii "securemode", ascii "_v", ascii "signmethod", ascii "timestamp"].Nodup := by decide +kernel
  refine logsIn_of_fields hbroker hamp hid hkeys ?_ rfl rfl hmac (fromHex_sprintf02x _)
  show ∀ f ∈ goParams version timeStamp, Readable byteUnit f
  have hplain : Readable byteUnit (ascii "securemode", ascii "2") ∧
      Readable byteUnit (ascii "signmethod", ascii "hmacsha1") := by decide +kernel
  simp only [goParams, List.forall_mem_cons]
  exact ⟨hplain.1, hversion, hplain.2, readable_of_value (by decide +kernel) hcomma hbar,
    fun f hf => absurd hf List.not_mem_nil⟩

/-- What the Go signers return logs the device in, under any client id, if that
holds no `|`, the device name no `&` and the time stamp neither `,` nor `|`. -/
theorem calculateSign_logsIn (hmacSha1 : List Byte → List Byte → List Byte)
    {clientId productKey deviceName timeStamp : List Byte} (deviceSecret : List Byte)
    (hid : byteUnit '|' ∉ clientId) (hamp : byteUnit '&' ∉ deviceName) (hcomma : byteUnit ',' ∉ timeStamp)
    (hbar : byteUnit '|' ∉ timeStamp) {broker : Broker Byte} (hbroker : Documented byteTexts broker)
    (hmac : broker.mac (ascii "hmacsha1") = some fun text key => hmacSha1 key text) :
    let promise := fun auth : AuthInfo =>
      LogsIn byteTexts broker (fun text key => hmacSha1 key text) clientId productKey deviceName timeStamp
        deviceSecret ⟨auth.mqttClientId, auth.username, auth.password⟩
    promise (calculateSign hmacSha1 clientId productKey deviceName deviceSecret timeStamp) ∧
      promise (calculateSignIot hmacSha1 clientId productKey deviceName deviceSecret timeStamp).toAuthInfo := by
  intro promise
  constructor
  · exact authOf_logsIn hmacSha1 (ascii "paho-go-1.0.0") (by decide +kernel) (by decide +kernel)
      deviceSecret hid hamp hcomma hbar hbroker hmac
  · exact authOf_logsIn hmacSha1 (ascii "sdk-go-1.0.0") (by decide +kernel) (by decide +kernel)
      deviceSecret hid hamp hcomma hbar hbroker hmac

/-- A device whose HMAC is known. -/
theorem calculateSign_logsIn_deng :
    let hmacSha1 : List Byte → List Byte → List Byte := fun _ _ => [0x2c, 0x3e, 0xe3, 0x17, 0x40, 0x04, 0x68,
      0xc1, 0x70, 0xac, 0x32, 0x22, 0xfe, 0x24, 0x66, 0xc3, 0xa4, 0xa5, 0xb3, 0x12]
    let mac := fun method => if method = ascii "hmacsha1" then some fun text key => hmacSha1 key text else none
    let deviceSecret := ascii "UrwclDV33NaFSmk0JaBxNTqgSrJWXIkN"
    let promise := fun auth : AuthInfo =>
      LogsIn byteTexts (readingBroker byteTexts (fun _ _ => some deviceSecret) mac) (fun text key => hmacSha1 key text)
        (ascii "go_device_id_0001") (ascii "a1Zd7n5yTt8") (ascii "deng") (ascii "1528018257135") deviceSecret
        ⟨auth.mqttClientId, auth.username, auth.password⟩
    promise (calculateSign hmacSha1 (ascii "go_device_id_0001") (ascii "a1Zd7n5yTt8") (ascii "deng") deviceSecret
        (ascii "1528018257135")) ∧
      promise (calculateSignIot hmacSha1 (ascii "go_device_id_0001") (ascii "a1Zd7n5yTt8") (ascii "deng")
        deviceSecret (ascii "1528018257135")).toAuthInfo := by
  intro hmacSha1 mac deviceSecret promise
  exact calculateSign_logsIn hmacSha1 deviceSecret (by decide) (by decide) (by decide) (by decide)
    (readingBroker_documented (by decide) _ _) (readingBroker_mac _ _ _)

end

end Linkkit.Proof.Login
