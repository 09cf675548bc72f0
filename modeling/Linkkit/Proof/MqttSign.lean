import Linkkit.Spec.MqttSign

/-!
# What the Java signers do to their object

`calculate` assigns the user name, and `getMqttOption` the client identifier and
the user name, before the HMAC, whose exception both swallow. So a call for a
device with an empty secret leaves fields of two devices, unless these were
assigned already (`oneIdentity_iff`); and so it is for every sequence of calls
(`identities_iff`).
-/

namespace Linkkit.Proof.MqttSign

open Impl.MqttSign Spec.MqttSign

variable (signer : Signer) (mac : Utf16 → Utf16 → Utf16)

/-- A call for a device with a secret. -/
theorem after_secret (self : Credentials) (now : Int64) (productKey deviceName : Utf16) {deviceSecret : Utf16}
    (h : deviceSecret ≠ []) : credentials signer mac now productKey deviceName deviceSecret =
      some (after signer mac self ⟨now, some productKey, some deviceName, some deviceSecret⟩) := by
  cases signer with
  | java => simp [credentials, after, calculate, jdkHmac, h, usernameOf, Signer.version]
  | android => simp [credentials, after, getMqttOption, jdkHmac, h, usernameOf, Signer.version]

/-- A call for a device without one. -/
theorem after_noSecret (self : Credentials) (now : Int64) (productKey deviceName : Utf16) :
    after signer mac self ⟨now, some productKey, some deviceName, some []⟩ = { self with
      username := usernameOf productKey deviceName
      clientid := if signer = .android then clientidOf signer.version productKey deviceName (decimal now)
        else self.clientid } := by
  cases signer with
  | java => simp [after, calculate, jdkHmac, usernameOf]
  | android => simp [after, getMqttOption, jdkHmac, usernameOf, Signer.version]

/-- A call with a null argument. -/
theorem after_null (self : Credentials) {c : Call}
    (h : c.productKey = none ∨ c.deviceName = none ∨ c.deviceSecret = none) : after signer mac self c = self := by
  obtain ⟨now, productKey, deviceName, deviceSecret⟩ := c
  cases signer <;> cases productKey <;> cases deviceName <;> cases deviceSecret <;>
    first | rfl | simp at h

/-- A call that throws leaves the object as it was exactly if what it assigns
before is assigned already. -/
theorem after_noSecret_eq (self : Credentials) (now : Int64) (productKey deviceName : Utf16) :
    after signer mac self ⟨now, some productKey, some deviceName, some []⟩ = self ↔
      Assigned signer self ⟨now, some productKey, some deviceName, some []⟩ := by
  rw [after_noSecret]
  constructor
  · rintro h pk dn ⟨⟩ ⟨⟩ -
    refine ⟨(congrArg Credentials.username h).symm, fun hs => ?_⟩
    have hc := congrArg Credentials.clientid h
    simpa only [hs, if_true] using hc.symm
  · intro h
    obtain ⟨hu, hc⟩ := h productKey deviceName rfl rfl rfl
    rw [← hu]
    by_cases hs : signer = .android
    · rw [if_pos hs, ← hc hs]
    · rw [if_neg hs]

/-- After a call the object has the credentials of one device, those it had or
those of the call, exactly if a call that throws finds assigned what it assigns
before. -/
theorem oneIdentity_iff (self : Credentials) (c : Call) :
    OneIdentity signer mac self c ↔ Assigned signer self c := by
  obtain ⟨now, productKey, deviceName, deviceSecret⟩ := c
  cases productKey with
  | none => exact iff_of_true (.inl (after_null signer mac self (.inl rfl))) nofun
  | some productKey =>
    cases deviceName with
    | none => exact iff_of_true (.inl (after_null signer mac self (.inr (.inl rfl)))) nofun
    | some deviceName =>
      cases deviceSecret with
      | none => exact iff_of_true (.inl (after_null signer mac self (.inr (.inr rfl)))) fun _ _ _ _ h => nomatch h
      | some deviceSecret =>
        by_cases hs : deviceSecret = []
        · subst hs
          rw [← after_noSecret_eq signer mac]
          refine ⟨fun h => h.resolve_right ?_, .inl⟩
          -- no credentials are those of a device without a secret
          rintro ⟨pk, dn, ds, -, -, hds, hcreds⟩
          cases hds
          simp [credentials, jdkHmac] at hcreds
        · refine iff_of_true (.inr ⟨productKey, deviceName, deviceSecret, rfl, rfl, rfl, ?_⟩) fun _ _ _ _ he => ?_
          · exact after_secret signer mac self now productKey deviceName hs
          · exact absurd (Option.some.inj he) hs

/-- After every call of a sequence the object has the credentials of one device
exactly if every call that throws finds assigned what it assigns before. -/
theorem identities_iff (self : Credentials) (calls : List Call) :
    Along (step signer mac) (OneIdentity signer mac) self calls ↔
      Along (step signer mac) (Assigned signer) self calls :=
  ⟨Along.mono fun s c => (oneIdentity_iff signer mac s c).mp,
    Along.mono fun s c => (oneIdentity_iff signer mac s c).mpr⟩

/-- A new object, a call for `d1` and a call for `d2` with an empty secret: the
user name is that of `d2`, the password that of `d1`. -/
theorem identities_mixed : ¬ ∃ signer mac, Along (step signer mac) (OneIdentity signer mac) ⟨[], [], []⟩
    [⟨1, some (utf16 "pk"), some (utf16 "d1"), some (utf16 "secret")⟩,
      ⟨2, some (utf16 "pk"), some (utf16 "d2"), some []⟩] := by
  rintro ⟨signer, mac, h⟩
  have h₂ := (h.2 _ _ rfl).1
  rw [oneIdentity_iff] at h₂
  have hu : usernameOf (utf16 "pk") (utf16 "d1") = usernameOf (utf16 "pk") (utf16 "d2") := by
    have hc := after_secret signer mac ⟨[], [], []⟩ 1 (utf16 "pk") (utf16 "d1")
      (by decide : utf16 "secret" ≠ [])
    obtain ⟨password, -, ha⟩ := Option.map_eq_some_iff.mp hc
    have hu := (h₂ _ _ rfl rfl rfl).1
    rwa [← ha] at hu
  exact absurd hu (by decide)

end Linkkit.Proof.MqttSign
