import Linkkit.Spec.Ifaddr
import Mathlib.Data.List.TakeWhile

/-!
# Which interface and address the calls find

`sscanf` reads back the rows that the kernel prints (`scanRoute_row`), so the
loop over any table stops at its first default route
(`defaultRouting_first`), and `HAL_Wifi_Get_IP` gives the address of the
interface that was asked for, as a number and as text, and closes its socket
(`getIp_answers`).
-/

namespace Linkkit.Proof.Ifaddr

open Impl.Net Impl.Ifaddr Spec.Ifaddr

/-! ## Rows -/

/-- What ends a field. -/
theorem atSpace_tab (l : List Byte) : AtSpace (0x09 :: l) := fun c hc => by
  obtain rfl := Option.some.inj hc
  rfl

theorem isSpace_tab : ∀ c ∈ [(0x09 : Byte)], isSpace c := fun c hc => by
  rw [List.mem_singleton.mp hc]
  rfl

section

variable {cs : List Conv} {rest : List Byte}

/-- A field in base 16 behind a tab. -/
theorem sscanf_hex {w k : Nat} {width : Option Nat} {n : Nat} (hw : w ≤ k) (hk : 0 < k) (hn : n < 16 ^ k)
    (hwidth : ∀ v ∈ width, k ≤ v) (hr : AtSpace rest) :
    sscanf (.int 16 width :: cs) (0x09 :: (paddedHex w n ++ rest)) = .int n :: sscanf cs rest := by
  have hlen := length_paddedHex_le hw hk hn
  have h : scanInt 16 width ([0x09] ++ paddedHex w n ++ rest) = some ((ofDigits 16 (paddedHex w n) : Int), rest) :=
    scanInt_digits (Nat.le_refl 16) isSpace_tab (fun c hc => isDigit_of_mem_paddedHex hc) (paddedHex_ne_nil w n)
      (fun v hv => Nat.le_trans hlen (hwidth v hv)) hr
  rw [ofDigits_paddedHex, List.append_assoc, List.singleton_append] at h
  exact sscanf_cons cs (congrArg (Option.map _) h)

/-- A field in base 10 behind a tab. -/
theorem sscanf_decimal (z : Int) (hr : AtSpace rest) :
    sscanf (.int 10 none :: cs) (0x09 :: (decimalText z ++ rest)) = .int z :: sscanf cs rest := by
  have h := scanInt_decimal z isSpace_tab hr
  rw [List.append_assoc, List.singleton_append] at h
  exact sscanf_cons cs (congrArg (Option.map _) h)

end

/-- What `sscanf` reads from a row, whatever white space follows. -/
theorem sscanf_fields {r : Route} (hr : r.Named) {rest : List Byte} (hrest : AtSpace rest) :
    sscanf routeFormat (r.fields ++ rest) =
      [.word r.iface, .int r.destination.toNat, .int r.gateway.toNat, .int r.flags.toNat, .int r.refCnt.toInt,
        .int r.use.toNat, .int r.metric.toInt, .int r.mask.toNat, .int r.mtu.toInt, .int r.window.toNat,
        .int r.irtt.toNat] := by
  obtain ⟨hne, -, hc⟩ := hr
  have hword (l : List Byte) : scanWord (r.iface ++ 0x09 :: l) = some (r.iface, 0x09 :: l) :=
    scanWord_word (s := []) (fun c hc => absurd hc List.not_mem_nil) (fun c h => (hc c h).2) hne (atSpace_tab l)
  have hword (cs : List Conv) (l : List Byte) :
      sscanf (.word :: cs) (r.iface ++ 0x09 :: l) = .word r.iface :: sscanf cs (0x09 :: l) :=
    sscanf_cons cs (congrArg (Option.map _) (hword l))
  have hlt (x : UInt32) : x.toNat < 16 ^ 8 := x.toNat_lt
  have hhex (cs : List Conv) (x : UInt32) (l : List Byte) :
      sscanf (.int 16 (some 8) :: cs) (0x09 :: (paddedHex 8 x.toNat ++ 0x09 :: l)) =
        .int x.toNat :: sscanf cs (0x09 :: l) :=
    sscanf_hex (Nat.le_refl 8) (by omega) (hlt x) (by simp) (atSpace_tab l)
  have hflags (cs : List Conv) (l : List Byte) :
      sscanf (.int 16 none :: cs) (0x09 :: (paddedHex 4 r.flags.toNat ++ 0x09 :: l)) =
        .int r.flags.toNat :: sscanf cs (0x09 :: l) :=
    sscanf_hex (w := 4) (by omega) (by omega) (hlt r.flags) (by simp) (atSpace_tab l)
  have hdec (cs : List Conv) (z : Int) (l : List Byte) :
      sscanf (.int 10 none :: cs) (0x09 :: (decimalText z ++ 0x09 :: l)) = .int z :: sscanf cs (0x09 :: l) :=
    sscanf_decimal z (atSpace_tab l)
  simp only [Route.fields, List.append_assoc, List.cons_append, routeFormat]
  rw [hword, hhex, hhex, hflags, hdec, hdec, hdec, hhex, hdec, hdec, sscanf_decimal _ hrest]
  rfl

/-! ### The form of a row -/

theorem inLine_fields {r : Route} (hr : r.Named) : ∀ c ∈ r.fields, InLine c := by
  have htab : InLine 0x09 := ⟨by decide, by decide⟩
  have hiface : ∀ c ∈ r.iface, InLine c := fun c hc =>
    ⟨(hr.2.2 c hc).1, fun he => by have := (hr.2.2 c hc).2; rw [he] at this; cases this⟩
  simp only [Route.fields, List.forall_mem_append, List.forall_mem_cons]
  exact ⟨hiface, htab, inLine_paddedHex _ _, htab, inLine_paddedHex _ _, htab, inLine_paddedHex _ _, htab,
    inLine_decimalText _, htab, inLine_decimalText _, htab, inLine_decimalText _, htab, inLine_paddedHex _ _, htab,
    inLine_decimalText _, htab, inLine_decimalText _, htab, inLine_decimalText _⟩

theorem length_fields_le {r : Route} (hr : r.Named) : r.fields.length ≤ 127 := by
  have hlen := hr.2.1
  have hhex (w : Nat) (hw : w ≤ 8) (x : UInt32) : (paddedHex w x.toNat).length ≤ 8 :=
    length_paddedHex_le hw (by omega) x.toNat_lt
  have hint (x : Int32) : (decimalText x.toInt).length ≤ 11 :=
    length_decimalText_le (by have := x.toInt_lt; have := x.le_toInt; omega)
  have hnat (x : UInt32) : (decimalText x.toNat).length ≤ 11 :=
    length_decimalText_le (by have := x.toNat_lt; omega)
  have h₁ := hhex 8 (by omega) r.destination
  have h₂ := hhex 8 (by omega) r.gateway
  have h₃ := hhex 4 (by omega) r.flags
  have h₄ := hhex 8 (by omega) r.mask
  have h₅ := hint r.refCnt
  have h₆ := hint r.metric
  have h₇ := hint r.mtu
  have h₈ := hnat r.use
  have h₉ := hnat r.window
  have h₀ := hnat r.irtt
  simp only [Route.fields, List.length_append, List.length_cons, ifnamsiz] at hlen ⊢
  omega

/-- A row is a line that the buffer has room for. -/
theorem row_line {r : Route} (hr : r.Named) : (∀ c ∈ r.row, InLine c) ∧ r.row.length + 1 < routerRecordSize := by
  refine ⟨fun c hc => ?_, ?_⟩
  · rw [Route.row, List.mem_append] at hc
    rcases hc with hc | hc
    · exact inLine_fields hr c hc
    · rw [List.eq_of_mem_replicate hc]
      exact ⟨by decide, by decide⟩
  · have := length_fields_le hr
    rw [Route.row, List.length_append, List.length_replicate, routerRecordSize]
    omega

theorem atSpace_padding (n : Nat) : AtSpace (List.replicate n 0x20 ++ [0x0A]) := by
  cases n with
  | zero => exact fun c hc => by obtain rfl := Option.some.inj hc; rfl
  | succ n => exact fun c hc => by obtain rfl := Option.some.inj hc; rfl

theorem ofInt_toNat (x : UInt32) : UInt32.ofInt x.toNat = x := by
  have hx := x.toNat_lt
  rw [UInt32.ofInt, Int.emod_eq_of_lt (by omega) (by omega), Int.toNat_natCast, UInt32.ofNat_toNat]

/-- The `sscanf` of a row stores the interface, the destination and the mask. -/
theorem scanRoute_row {r : Route} (hr : r.Named) (iface : Buf ifnamsiz) :
    ∃ b, scanRoute iface (r.row ++ [0x0A]) = some (b, some (r.destination, r.mask)) ∧
      ∃ rest, b.bytes = r.iface ++ 0 :: rest := by
  have hnul : (r.row ++ [0x0A]).takeWhile (· ≠ 0) = r.fields ++ (List.replicate (127 - r.fields.length) 0x20 ++ [0x0A]) := by
    rw [List.takeWhile_eq_self_iff.mpr, Route.row, List.append_assoc]
    intro c hc
    rcases List.mem_append.mp hc with hc | hc
    · exact decide_eq_true ((row_line hr).1 c hc).1
    · obtain rfl := List.mem_singleton.mp hc
      rfl
  have hlen := hr.2.1
  obtain ⟨b, hb, hv⟩ := Buf.memcpy_eq iface (show 0 + (r.iface.length + 1) ≤ _ by omega)
    (show r.iface.length + 1 ≤ (r.iface ++ [0]).length by rw [List.length_append, List.length_singleton])
  refine ⟨b, ?_, iface.bytes.drop (0 + (r.iface ++ [0]).length), ?_⟩
  · unfold scanRoute
    rw [hnul, sscanf_fields hr (atSpace_padding _)]
    dsimp only
    rw [hb]
    show some (b, some (UInt32.ofInt r.destination.toNat, UInt32.ofInt r.mask.toNat)) = _
    rw [ofInt_toNat, ofInt_toNat]
  · have ht : (r.iface ++ [0]).take (r.iface.length + 1) = r.iface ++ [0] :=
      List.take_of_length_le (by rw [List.length_append, List.length_singleton])
    rw [hv, ht, splice, List.take_zero, List.nil_append, List.append_assoc]
    rfl

/-! ## The default route -/

section

variable {n : Nat} {ifname : Buf n} {routes : List Route} {headings : List Byte}

/-- The loop stops at the first default route. -/
theorem routeLoop_first (hn : 0 < n) (hr : ∀ r ∈ routes, r.Named) (iface : Buf ifnamsiz) :
    ∃ res, routeLoop ifname (routes.map fun r => r.row ++ [0x0A]) iface = some res ∧
      (routes.find? (·.IsDefault) = none → res = none) ∧
      ∀ r, routes.find? (·.IsDefault) = some r → ∃ c, res = some c ∧
        c.bytes = r.iface.take (n - 1) ++ zeros (n - 1 - r.iface.length) ++ ifname.bytes.drop (n - 1) := by
  induction routes generalizing iface with
  | nil => exact ⟨none, rfl, fun _ => rfl, fun r h => by cases h⟩
  | cons r routes ih =>
    obtain ⟨hnamed, hr⟩ := List.forall_mem_cons.mp hr
    obtain ⟨b, hb, rest, hv⟩ := scanRoute_row hnamed iface
    have h0 : 0 ∉ r.iface := fun h => (hnamed.2.2 0 h).1 rfl
    by_cases hd : r.IsDefault
    · have hfind : (r :: routes).find? (·.IsDefault) = some r := List.find?_cons_of_pos (decide_eq_true hd)
      obtain ⟨c, hc, hcv⟩ := ifname.strncpy_of_nul h0 rest (Nat.sub_le n 1)
      rw [hfind]
      refine ⟨some c, ?_, fun h => (by cases h), fun r' hr' => ?_⟩
      · have hd' : r.destination = 0 ∧ r.mask = 0 := hd
        simp only [List.map_cons, routeLoop, hb, hv, hc, hd', and_self, if_true, if_neg (Nat.pos_iff_ne_zero.mp hn),
          Option.bind_eq_bind, Option.bind_some]
        rfl
      · cases hr'
        exact ⟨c, rfl, hcv⟩
    · have hfind : (r :: routes).find? (·.IsDefault) = routes.find? (·.IsDefault) :=
        List.find?_cons_of_neg (by rwa [decide_eq_true_eq])
      obtain ⟨res, hres, hnone, hsome⟩ := ih hr b
      rw [hfind]
      refine ⟨res, ?_, hnone, hsome⟩
      have hd' : ¬ (r.destination = 0 ∧ r.mask = 0) := hd
      simp only [List.map_cons, routeLoop, hb, hd', if_false, Option.bind_eq_bind, Option.bind_some]
      exact hres

/-- For every table of routes the call gives the interface of the first default
route, cut to what the array has room for, or `NULL` if there is none. -/
theorem defaultRouting_first (hn : 0 < n) (hh : Headings headings) (hr : ∀ r ∈ routes, r.Named) (ifname : Buf n) :
    ∃ res, getDefaultRoutingIfname (some (procNetRoute headings routes)) ifname = some res ∧
      (routes.find? (·.IsDefault) = none → res = none) ∧
      ∀ r, routes.find? (·.IsDefault) = some r → ∃ c, res = some c ∧
        c.bytes = r.iface.take (n - 1) ++ zeros (n - 1 - r.iface.length) ++ ifname.bytes.drop (n - 1) := by
  have hlines : fgetsLines routerRecordSize [] (procNetRoute headings routes) =
      (headings ++ [0x0A]) :: routes.map fun r => r.row ++ [0x0A] := by
    rw [procNetRoute, fgetsLines_lines, List.map_cons, List.map_map]
    · rfl
    · refine List.forall_mem_cons.mpr ⟨hh, fun l hl => ?_⟩
      obtain ⟨r, hm, rfl⟩ := List.mem_map.mp hl
      obtain ⟨hc, hlen⟩ := row_line (hr r hm)
      exact ⟨fun h => (hc _ h).2 rfl, hlen⟩
  unfold getDefaultRoutingIfname
  dsimp only
  rw [hlines]
  exact routeLoop_first hn hr _

end

/-! ## The address of an interface -/

section

variable {routes : List Route} {headings : List Byte}

/-- The name that was asked for, or that of the first default route, as a string
in memory. -/
theorem chooseIfname_eq (hh : Headings headings) (hr : ∀ r ∈ routes, r.Named) (socket : Int32)
    (siocgifaddr : List Byte → Option InAddr) (ifname : Option CString) :
    ∃ res, chooseIfname ⟨some (procNetRoute headings routes), socket, siocgifaddr⟩ ifname = some res ∧
      (interface ifname routes = none → res = none) ∧
      ∀ i, interface ifname routes = some i → ∃ name rest, res = some (name ++ 0 :: rest) ∧ 0 ∉ name ∧
        i = name.take (ifnamsiz - 1) := by
  -- the way over the default route
  have hdefault : ∃ res, (getDefaultRoutingIfname (some (procNetRoute headings routes)) (Buf.zero ifnamsiz)).map
        (Option.map Buf.bytes) = some res ∧
      ((routes.find? (·.IsDefault)).map Route.iface = none → res = none) ∧
      ∀ i, (routes.find? (·.IsDefault)).map Route.iface = some i → ∃ name rest, res = some (name ++ 0 :: rest) ∧
        0 ∉ name ∧ i = name.take (ifnamsiz - 1) := by
    obtain ⟨res, hres, hnone, hsome⟩ := defaultRouting_first (by decide) hh hr (Buf.zero ifnamsiz)
    refine ⟨res.map Buf.bytes, by rw [hres]; rfl, fun h => ?_, fun i h => ?_⟩
    · rw [hnone (Option.map_eq_none_iff.mp h)]
      rfl
    · obtain ⟨r, hfind, rfl⟩ := Option.map_eq_some_iff.mp h
      obtain ⟨c, rfl, hc⟩ := hsome r hfind
      obtain ⟨-, hlen, hchars⟩ := hr r (List.mem_of_find?_eq_some hfind)
      have htake : r.iface.take (ifnamsiz - 1) = r.iface := List.take_of_length_le (by omega)
      refine ⟨r.iface, zeros (ifnamsiz - 1 - r.iface.length), ?_, fun h => (hchars 0 h).1 rfl, htake.symm⟩
      rw [Option.map_some, hc, htake, List.append_assoc]
      show some (r.iface ++ (zeros (ifnamsiz - 1 - r.iface.length) ++ [0])) = _
      rw [← List.replicate_succ', List.replicate_succ]
  cases ifname with
  | none => exact hdefault
  | some s =>
    unfold chooseIfname interface
    by_cases hs : s.bytes = []
    · simp only [hs, List.length_nil, if_true]
      exact hdefault
    · simp only [List.length_eq_zero_iff, hs, if_false]
      refine ⟨some s.mem, rfl, fun h => (by cases h), fun i h => ?_⟩
      cases h
      exact ⟨s.bytes, [], rfl, s.noNul, rfl⟩

/-- The kernel finds the name in `ifr_name`, whatever was there before. -/
theorem ifrName_strncpy (old : Buf ifnamsiz) {name : List Byte} (h0 : 0 ∉ name) (rest : List Byte) :
    ∃ b, old.strncpy (name ++ 0 :: rest) (ifnamsiz - 1) = some b ∧ ifrName b = name.take (ifnamsiz - 1) := by
  obtain ⟨b, hb, hv⟩ := old.strncpy_of_nul h0 rest (Nat.sub_le ifnamsiz 1)
  refine ⟨b, hb, ?_⟩
  have hl : (name.take (ifnamsiz - 1) ++ zeros (ifnamsiz - 1 - name.length)).length = ifnamsiz - 1 := by
    simp only [List.length_append, List.length_take, List.length_replicate]
    omega
  have hpos : ∀ c ∈ name.take (ifnamsiz - 1), decide (c ≠ 0) = true := fun c hc =>
    decide_eq_true fun he => h0 (he ▸ List.mem_of_mem_take hc)
  rw [ifrName, hv, List.take_left' hl, List.takeWhile_append_of_pos hpos]
  cases ifnamsiz - 1 - name.length with
  | zero => exact List.append_nil _
  | succ k => exact List.append_nil _

/-- The text of an address in `ip_str`. -/
theorem strncpy_inetNtoa (ipStr : Buf networkAddrLen) (a : InAddr) :
    ∃ b, ipStr.strncpy (inetNtoa a ++ [0]) networkAddrLen = some b ∧
      ∃ n, strlen b.bytes = some n ∧ inetAton (b.bytes.take n) = some a := by
  have hl := length_inetNtoa_le a
  have hsize : networkAddrLen = 16 := rfl
  have h0 := zero_notMem_inetNtoa a
  obtain ⟨b, hb, hv⟩ := ipStr.strncpy_of_nul h0 [] (Nat.le_refl networkAddrLen)
  have htext : b.bytes = inetNtoa a ++ 0 :: zeros (networkAddrLen - (inetNtoa a).length - 1) := by
    rw [hv, List.take_of_length_le (by omega), List.drop_of_length_le (Nat.le_of_eq ipStr.length_eq), List.append_nil,
      ← List.replicate_succ]
    congr 2
    omega
  refine ⟨b, hb, (inetNtoa a).length, ?_, ?_⟩
  · rw [htext, strlen_string h0]
  · rw [htext, List.take_left, inetAton_inetNtoa]

/-- For every table of routes and whatever `ifr_name` held, `HAL_Wifi_Get_IP`
gives the address of the interface that it is given, or of the first default
route, as a number and as text; without one it returns -1 and stores nothing. It
leaves the descriptors as they were. -/
theorem getIp_answers {α : Type} (hh : Headings headings) (hr : ∀ r ∈ routes, r.Named) {socket : Int32} {fds : Fds α}
    (hfresh : ¬ fds.IsOpen socket) (siocgifaddr : List Byte → Option InAddr) (old : Buf ifnamsiz)
    (ipStr : Buf networkAddrLen) (ifname : Option CString) :
    ∃ ret ipStr', halWifiGetIp ⟨some (procNetRoute headings routes), socket, siocgifaddr⟩ old ipStr ifname fds =
        some (ret, ipStr', fds) ∧
      Answers (if socket < 0 then none else (interface ifname routes).bind siocgifaddr) ipStr ret ipStr' := by
  obtain ⟨res, hres, hnone, hsome⟩ := chooseIfname_eq hh hr socket siocgifaddr ifname
  have hmissing : Answers none ipStr (-1) ipStr := ⟨fun ip h => (by cases h), fun _ => ⟨rfl, rfl⟩⟩
  unfold halWifiGetIp
  rw [hres]
  simp only [Option.bind_eq_bind, Option.bind_some]
  cases hi : interface ifname routes with
  | none =>
    rw [hnone hi, Option.bind_none, ite_self]
    exact ⟨_, _, rfl, hmissing⟩
  | some i =>
    obtain ⟨name, rest, rfl, h0, rfl⟩ := hsome i hi
    dsimp only
    by_cases hneg : socket < 0
    · rw [if_pos hneg, if_pos hneg]
      exact ⟨_, _, rfl, hmissing⟩
    · obtain ⟨b, hb, hname⟩ := ifrName_strncpy old h0 rest
      have hopens := Descriptors.opens_eq_some.mpr ⟨hfresh, rfl⟩
      rw [if_neg hneg, if_neg hneg, hopens, Option.bind_some, hb, Option.bind_some, hname, Option.bind_some,
        Descriptors.close_of_opens hopens]
      cases siocgifaddr (name.take (ifnamsiz - 1)) with
      | none => exact ⟨_, _, rfl, hmissing⟩
      | some a =>
        obtain ⟨c, hc, htext⟩ := strncpy_inetNtoa ipStr a
        refine ⟨sAddr a, c, ?_, fun ip h => ?_, fun h => (by cases h)⟩
        · dsimp only
          rw [hc]
          rfl
        · obtain rfl := Option.some.inj h
          exact ⟨rfl, htext⟩

end

/-! ## Hardware addresses -/

theorem length_hexByte (x : Byte) : (hexByte x).length = 2 := by
  have hlen : (digits 16 x.toNat).length ≤ 2 :=
    length_digits_le (by omega) (Nat.lt_of_lt_of_le x.toNat_lt (by decide))
  rw [hexByte, List.leftpad, List.length_append, List.length_replicate]
  omega

theorem isDigit_of_mem_hexByte {x c : Byte} (h : c ∈ hexByte x) : isDigit 16 c = true :=
  decide_eq_true (digitVal_of_mem_leftpad
    (fun c hc => of_decide_eq_true (isDigit_of_mem_digits (by omega) (Nat.le_refl 16) hc)) h)

/-- Two digits, which denote the byte. -/
theorem readHexByte_hexByte (x : Byte) : readHexByte (hexByte x) = some x := by
  have hval : ofDigits 16 (hexByte x) = x.toNat := by
    rw [hexByte, ofDigits_leftpad, ofDigits_digits (by omega) (by omega)]
  rw [readHexByte, if_pos ⟨length_hexByte x, List.all_eq_true.mpr fun c hc => isDigit_of_mem_hexByte hc⟩, hval,
    UInt8.ofNat_toNat]

/-- The text of an address, which is read back. -/
theorem readMac_macText {saData : List Byte} (h : 6 ≤ saData.length) : (macText saData).length = 17 ∧
    0 ∉ macText saData ∧ readMac (macText saData) = some (saData.take 6) := by
  have hcolon : ∀ x, 0x3A ∉ hexByte x := fun x hx => absurd (isDigit_of_mem_hexByte hx) (by decide)
  have hnul : ∀ x, 0 ∉ hexByte x := fun x hx => absurd (isDigit_of_mem_hexByte hx) (by decide)
  have hlen : (saData.take 6).length = 6 := by rw [List.length_take]; omega
  refine ⟨?_, ?_, ?_⟩
  · obtain ⟨a, b, c, d, e, f, hl⟩ : ∃ a b c d e f, saData.take 6 = [a, b, c, d, e, f] := by
      generalize saData.take 6 = l at hlen
      match l, hlen with
      | [a, b, c, d, e, f], _ => exact ⟨a, b, c, d, e, f, rfl⟩
    simp [macText, hl, length_hexByte, List.intercalate]
  · refine notMem_intercalate (by decide) fun l hl => ?_
    obtain ⟨x, -, rfl⟩ := List.mem_map.mp hl
    exact hnul x
  · have hne : (saData.take 6).map hexByte ≠ [] := by
      intro he
      rw [List.map_eq_nil_iff.mp he] at hlen
      cases hlen
    rw [readMac, macText, List.splitOn_intercalate 0x3A (fun l hl => by
      obtain ⟨x, -, rfl⟩ := List.mem_map.mp hl
      exact hcolon x) hne]
    exact mapM_map fun x _ => readHexByte_hexByte x

/-- Whatever the kernel answers, `HAL_Wifi_Get_Mac` stays in the array exactly if it
has room for 18 bytes, or no address is found and a NUL is in it already. It then
gives the hardware address of `g_ifname` as text, leaves the array alone without
one, and leaves the descriptors as they were. -/
theorem getMac_answers {α : Type} {n : Nat} (gIfname : CString) {sys : MacSys} {fds : Fds α}
    (hfresh : ¬ fds.IsOpen sys.socket) (macStr : Buf n) :
    ((Ubuntu.halWifiGetMac gIfname sys macStr fds).isSome = true ↔
      (¬ sys.socket < 0 → MacFits (macOf sys gIfname) macStr)) ∧
      ∀ ret macStr' fds', Ubuntu.halWifiGetMac gIfname sys macStr fds = some (ret, macStr', fds') →
        MacAnswers sys.socket (macOf sys gIfname) macStr ret macStr' ∧ fds' = fds := by
  unfold Ubuntu.halWifiGetMac macOf
  by_cases hneg : sys.socket < 0
  · rw [if_pos hneg]
    refine ⟨iff_of_true rfl fun hn => absurd hneg hn, fun ret macStr' fds' h => ?_⟩
    cases h
    exact ⟨⟨iff_of_false (by decide) (not_not.mpr hneg), fun bs hn => absurd hneg hn, fun _ => rfl⟩, rfl⟩
  obtain ⟨b, hb, hname⟩ := ifrName_strncpy (Buf.zero ifnamsiz) gIfname.noNul []
  have hopens := Descriptors.opens_eq_some.mpr ⟨hfresh, rfl⟩
  rw [if_neg hneg, hopens]
  simp only [Option.bind_eq_bind, Option.bind_some, CString.mem, hb, hname, Descriptors.close_of_opens hopens]
  cases sys.siocgifhwaddr (gIfname.bytes.take (ifnamsiz - 1)) with
  | none =>
    dsimp only [Option.bind_some]
    by_cases hnul : 0 ∈ macStr.bytes
    · obtain ⟨k, hk⟩ := exists_strlen hnul
      rw [hk]
      refine ⟨iff_of_true rfl fun _ => hnul, fun ret macStr' fds' h => ?_⟩
      cases h
      exact ⟨⟨iff_of_true rfl hneg, fun bs _ hm => absurd hm.symm (Option.some_ne_none bs), fun _ => rfl⟩, rfl⟩
    · rw [strlen_eq_none hnul]
      exact ⟨iff_of_false Bool.false_ne_true fun hr => hnul (hr hneg), fun _ _ _ h => by cases h⟩
  | some saData =>
    obtain ⟨hlen, hnul, hread⟩ := readMac_macText (show 6 ≤ saData.bytes.length by rw [saData.length_eq]; omega)
    have hsrc : (macText saData.bytes ++ [0]).length = 18 := by rw [List.length_append, hlen]; rfl
    dsimp only
    rw [hlen]
    by_cases hn : 18 ≤ n
    · obtain ⟨c, hc, hv⟩ := macStr.memcpy_eq (show 0 + (17 + 1) ≤ n by omega) (Nat.le_of_eq hsrc.symm)
      rw [List.take_of_length_le (Nat.le_of_eq hsrc), splice, List.take_zero, List.nil_append, hsrc, List.append_assoc,
        List.singleton_append] at hv
      rw [hc, Option.bind_some, hv, strlen_string hnul]
      refine ⟨iff_of_true rfl fun _ => hn, fun ret macStr' fds' h => ?_⟩
      cases h
      refine ⟨⟨iff_of_true rfl hneg, fun bs _ hbs => ⟨macText saData.bytes, hv, hlen, hnul, ?_⟩, fun hm => ?_⟩, rfl⟩
      · cases hbs
        exact hread
      · rcases hm with hm | hm
        · exact absurd hm hneg
        · cases hm
    · have hout : macStr.memcpy 0 (macText saData.bytes ++ [0]) (17 + 1) = none := dif_neg fun h => hn (by omega)
      rw [hout]
      exact ⟨iff_of_false Bool.false_ne_true fun hr => hn (hr hneg), fun _ _ _ h => by cases h⟩

/-! ## Readiness -/

/-- The string at the start of an array, and its terminator. -/
theorem takeWhile_append_zeros (l : List Byte) {n : Nat} (hn : 0 < n) :
    ∃ rest, l ++ zeros n = l.takeWhile (· ≠ 0) ++ 0 :: rest := by
  induction l with
  | nil =>
    obtain ⟨n, rfl⟩ := Nat.exists_eq_succ_of_ne_zero (Nat.ne_of_gt hn)
    exact ⟨zeros n, rfl⟩
  | cons c l ih =>
    by_cases hc : c = 0
    · subst hc
      exact ⟨l ++ zeros n, rfl⟩
    · obtain ⟨rest, hr⟩ := ih
      refine ⟨rest, ?_⟩
      rw [List.cons_append, hr, List.takeWhile_cons_of_pos (by simpa using hc)]
      rfl

/-- Whatever the command prints, `do_cmd_exec` stays in its arrays and stores the
string at the start of it. -/
theorem doCmdExec_some (out : List Byte) (result : Buf 1024) : ∃ result' rest,
    doCmdExec (some out) result = some (((readOf out).length : Int), result') ∧ result'.bytes = readOf out ++ 0 :: rest := by
  have hlen : (readOf out).length ≤ 1023 :=
    Nat.le_trans (List.takeWhile_prefix _).length_le (by rw [List.length_take]; omega)
  have hnul : 0 ∉ readOf out := fun h => by simpa using List.mem_takeWhile_imp h
  have hbuf := Buf.memcpy_zero (show min (1024 - 1) out.length ≤ 1024 by omega) (Nat.min_le_right _ _)
  have htake : out.take (min (1024 - 1) out.length) = out.take 1023 := by
    rw [← List.take_take, List.take_length]
  have hbytes : (Buf.ofList 1024 (out.take 1023)).bytes = out.take 1023 ++ zeros (1024 - (out.take 1023).length) :=
    Buf.bytes_ofList (by rw [List.length_take]; omega)
  obtain ⟨rest, hrest⟩ := takeWhile_append_zeros (out.take 1023) (n := 1024 - (out.take 1023).length)
    (by rw [List.length_take]; omega)
  have hs : (Buf.ofList 1024 (out.take 1023)).bytes = readOf out ++ 0 :: rest := hbytes.trans hrest
  obtain ⟨c, hc, hv⟩ := result.memcpy_eq (show 0 + (readOf out ++ [0]).length ≤ 1024 by
    rw [List.length_append, List.length_singleton]; omega) (Nat.le_refl _)
  refine ⟨c, result.bytes.drop (readOf out ++ [0]).length, ?_, ?_⟩
  · rw [doCmdExec, hbuf, htake]
    simp only [Option.bind_eq_bind, Option.bind_some, hs, strlen_string hnul, List.take_left,
      List.take_of_length_le hlen, hc]
    rfl
  · rw [hv, List.take_length, splice, List.take_zero, List.nil_append, List.append_assoc, List.singleton_append,
      Nat.zero_add]

/-- Whatever `ifconfig` prints, or if it cannot be called, the call stays in its
arrays, and the network is ready if `inet addr` is in the first 1023 bytes, before
a NUL. -/
theorem netIsReady_iff (out : Option (List Byte)) :
    ∃ ret, Ubuntu.halSysNetIsReady out = some ret ∧ (ret = 1 ↔ Ready out) ∧ (ret = 0 ↔ ¬ Ready out) := by
  have hword : 0 ∉ ascii "inet addr" ∧ ascii "inet addr" ≠ [] := by decide +kernel
  suffices key : ∃ s rest result, (doCmdExec out (Buf.zero 1024)).map Prod.snd = some result ∧
      result.bytes = s ++ 0 :: rest ∧ 0 ∉ s ∧ (Ready out ↔ ascii "inet addr" <:+: s) by
    obtain ⟨s, rest, result, hres, hbytes, h0, hready⟩ := key
    obtain ⟨⟨len, result'⟩, hexec, he⟩ := Option.map_eq_some_iff.mp hres
    obtain rfl : result' = result := he
    obtain ⟨r, hr, hiff⟩ := strstr_found_iff hword.1 hword.2 h0 rest
    rw [Ubuntu.halSysNetIsReady, hexec, hready, ← hiff]
    simp only [Option.bind_eq_bind, Option.bind_some, hbytes, hr]
    cases r with
    | none => exact ⟨0, rfl, by decide, by decide⟩
    | some p => exact ⟨1, rfl, iff_of_true rfl rfl, iff_of_false (by decide) (not_not.mpr rfl)⟩
  cases out with
  | none =>
    refine ⟨[], zeros 1023, Buf.zero 1024, rfl, rfl, List.not_mem_nil, iff_of_false ?_ fun h => ?_⟩
    · rintro ⟨o, ho, -⟩
      cases ho
    · exact hword.2 (List.infix_nil.mp h)
  | some o =>
    obtain ⟨result, rest, hexec, hbytes⟩ := doCmdExec_some o (Buf.zero 1024)
    refine ⟨readOf o, rest, result, by rw [hexec]; rfl, hbytes, fun h => by simpa using List.mem_takeWhile_imp h, ?_⟩
    exact ⟨fun ⟨o', ho, h⟩ => by cases ho; exact h, fun h => ⟨o, rfl, h⟩⟩

/-- A host route and the default route. -/
def routes : List Route :=
  [⟨ascii "eth0", 0x0100000A, 0, 5, 0, 0, 100, 0xFFFFFFFF, 0, 0, 0⟩,
    ⟨ascii "wlan0", 0, 0x0101A8C0, 3, 0, 0, -1, 0, 1500, 0, 0⟩]

def headings : List Byte := ascii "Iface\tDestination"

theorem named_routes : ∀ r ∈ routes, r.Named := by
  simp [routes, Route.Named, ascii, isSpace, ifnamsiz]

theorem defaultRouting_first_wlan0 :
    ∃ res, getDefaultRoutingIfname (some (procNetRoute headings routes)) (Buf.zero 16) = some res ∧
      (routes.find? (·.IsDefault) = none → res = none) ∧
      ∀ r, routes.find? (·.IsDefault) = some r → ∃ c, res = some c ∧
        c.bytes = r.iface.take 15 ++ zeros (15 - r.iface.length) ++ (Buf.zero 16).bytes.drop 15 :=
  defaultRouting_first (by decide) (by decide) named_routes _

/-- The interface of the default route has an address. -/
theorem getIp_answers_wlan0 :
    let siocgifaddr (name : List Byte) : Option InAddr := if name = ascii "wlan0" then some ⟨192, 168, 1, 2⟩ else none
    ∃ ret ipStr', halWifiGetIp ⟨some (procNetRoute headings routes), 3, siocgifaddr⟩ (Buf.zero 16) (Buf.zero 16) none
        (.none : Fds Unit) = some (ret, ipStr', .none) ∧
      Answers (if (3 : Int32) < 0 then none else (interface none routes).bind siocgifaddr) (Buf.zero 16) ret ipStr' :=
  getIp_answers (by decide) named_routes Descriptors.not_isOpen_none _ _ _ _

/-- The wireless card has an address, and the array has room for its text. -/
theorem getMac_answers_wlan0 :
    let sys : MacSys := ⟨3, fun name => if name = ascii "wlan0" then some (.ofList 14 [0x18, 0xFE, 0x34, 0x12, 0x33, 0x44])
      else none⟩
    let gIfname : CString := ⟨ascii "wlan0", by decide⟩
    ((Ubuntu.halWifiGetMac gIfname sys (Buf.zero 18) (.none : Fds Unit)).isSome = true ↔
      (¬ sys.socket < 0 → MacFits (macOf sys gIfname) (Buf.zero 18))) ∧
      ∀ ret macStr' (fds' : Fds Unit), Ubuntu.halWifiGetMac gIfname sys (Buf.zero 18) .none = some (ret, macStr', fds') →
        MacAnswers sys.socket (macOf sys gIfname) (Buf.zero 18) ret macStr' ∧ fds' = .none :=
  getMac_answers _ Descriptors.not_isOpen_none _

end Linkkit.Proof.Ifaddr
