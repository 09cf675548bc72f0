import Linkkit.Spec.Wifi

/-!
# The access point, as it is read

Jabsco's `HAL_Wifi_Get_Ap_Info` closes the file after its first line and goes on
to read from it, so that it is defined for a file without a line only
(`parsed_iff`). What follows the loop takes two quotes for granted, copies what is
between them whatever its length, and stores no terminator: `parseLine_iff` says
for which lines it would parse right. ubuntu's reads the two strings right, of
every length (`readStringFromFile_printed`), but treats the printed BSSID as
one more string, which is too long for its array (`readStringFromFile_mac`);
`reported_iff` says when that does no harm.
-/

namespace Linkkit.Proof.Wifi

open Impl.Wifi
open Impl.Wifi.Ubuntu (Files Outputs readStringFromFile readUnlessNull)
open Spec.Wifi

/-- A string in an array, and what is right behind it. -/
theorem holds_iff {n : Nat} {a : Buf n} {s t : List Byte} (h : a.bytes = s ++ t) : Holds a s ↔ t.head? = some 0 := by
  simp only [Holds, h, List.append_cancel_left_eq, List.head?_eq_some_iff]

/-! ## Jabsco -/

section

variable {line : CString} {buff : Buf Jabsco.maxline} {rest : List Byte}
  (hbuff : buff.bytes = line.bytes ++ 0 :: rest) (ssid : Buf halMaxSsidLen)

include hbuff

theorem parseLine_short (h : line.bytes.length < 2) :
    Jabsco.parseLine buff (some ssid) = some (-1, some ssid) := by
  simp only [Jabsco.parseLine, hbuff, strlen_string line.noNul, Option.bind_eq_bind, Option.bind_some, h, if_true]
  rfl

/-- With one quote, or none, a search gives `NULL`. -/
theorem parseLine_unquoted (h : 2 ≤ line.bytes.length) (hq : ¬ ∃ name, Between 0x22 line.bytes name) :
    Jabsco.parseLine buff (some ssid) = none := by
  have hl : ¬ line.bytes.length < 2 := Nat.not_lt.mpr h
  have h0 := line.noNul
  simp only [Jabsco.parseLine, Jabsco.quote, hbuff, strlen_string h0, Option.bind_eq_bind, Option.bind_some, hl,
    if_false]
  rcases between_or 0x22 line.bytes with hb | ⟨p, r, he, hp, hr⟩ | hn
  · exact absurd hb hq
  · rw [he, List.mem_append, List.mem_cons, not_or, not_or] at h0
    have hd : (p ++ 0x22 :: (r ++ 0 :: rest)).drop (p.length + 1) = r ++ 0 :: rest := List.drop_length_add_append 1
    rw [he, List.append_assoc, List.cons_append, strstr_byte h0.1 hp]
    simp only [Option.bind_some]
    rw [hd, strstr_byte_none (by decide) h0.2.2 hr]
    rfl
  · rw [strstr_byte_none (by decide) h0 hn]
    rfl

/-- What is between two quotes is copied, without a terminator. -/
theorem parseLine_between {name : List Byte} (hq : Between 0x22 line.bytes name) :
    ∃ t, Jabsco.parseLine buff (some ssid) =
      (ssid.memcpy 0 (name ++ t) name.length).map fun ssid => (0, some ssid) := by
  have hl : ¬ line.bytes.length < 2 := by
    have := hq.length
    omega
  have h0 := line.noNul
  obtain ⟨p, r, he, hp, hn⟩ := hq
  rw [he, List.mem_append, List.mem_cons, List.mem_append, not_or, not_or, not_or] at h0
  have hd : (p ++ 0x22 :: (name ++ 0x22 :: (r ++ 0 :: rest))).drop (p.length + 1) = name ++ 0x22 :: (r ++ 0 :: rest) :=
    List.drop_length_add_append 1
  have hlen : p.length + 1 + name.length - p.length - 1 = name.length := by omega
  have hb : buff.bytes = p ++ 0x22 :: (name ++ 0x22 :: (r ++ 0 :: rest)) := by
    rw [hbuff, he]
    simp only [List.append_assoc, List.cons_append]
  have hs : strlen buff.bytes = some line.bytes.length := by rw [hbuff, strlen_string line.noNul]
  refine ⟨0x22 :: (r ++ 0 :: rest), ?_⟩
  simp only [Jabsco.parseLine, Jabsco.quote, hs, Option.bind_eq_bind, Option.bind_some, hl, if_false]
  rw [hb, strstr_byte h0.1 hp]
  simp only [Option.bind_some, hd]
  rw [strstr_byte h0.2.2.1 hn]
  simp only [Option.bind_some, hlen]
  cases ssid.memcpy 0 (name ++ 0x22 :: (r ++ 0 :: rest)) name.length with
  | none => rfl
  | some b => rfl

/-- The name, and behind it what `ssid` had there. -/
theorem parseLine_named {name : List Byte} (hn : Named line.bytes name) :
    ∃ ssid', Jabsco.parseLine buff (some ssid) = some (0, some ssid') ∧
      ssid'.bytes = name ++ ssid.bytes.drop name.length := by
  obtain ⟨t, hr⟩ := parseLine_between hbuff ssid hn.1
  have hfit : name.length ≤ 32 := hn.2
  obtain ⟨ssid', hm, hv⟩ := ssid.memcpy_eq (show 0 + name.length ≤ 33 by omega)
    (show name.length ≤ (name ++ t).length by rw [List.length_append]; omega)
  refine ⟨ssid', by rw [hr, hm, Option.map_some], ?_⟩
  rw [hv, List.take_left, splice, List.take_zero, List.nil_append, Nat.zero_add]

/-- Exactly the lines that are too short for a name are parsed, and those whose name
ends where `ssid` has a zero already. -/
theorem parseLine_iff :
    Parsed line.bytes ssid (Jabsco.parseLine buff (some ssid)) ↔ EndsAlready line.bytes ssid := by
  constructor
  · intro h
    by_cases hs : line.bytes.length < 2
    · exact .inl hs
    by_cases hq : ∃ name, Between 0x22 line.bytes name
    · obtain ⟨name, hq⟩ := hq
      by_cases hfit : name.length ≤ 32
      · obtain ⟨ssid', hr, hv⟩ := parseLine_named hbuff ssid ⟨hq, hfit⟩
        obtain ⟨ssid'', hr', hold⟩ := h.named name ⟨hq, hfit⟩
        obtain rfl : ssid' = ssid'' := by
          rw [hr] at hr'
          cases hr'
          rfl
        rw [holds_iff hv, List.head?_drop] at hold
        exact .inr ⟨name, ⟨hq, hfit⟩, hold⟩
      · -- The copy of too long a name is not refused: it gives 0, or leaves the array.
        have hu := h.unnamed fun ⟨n, hn⟩ => hfit (hq.unique hn.1 ▸ hn.2)
        obtain ⟨t, hr⟩ := parseLine_between hbuff ssid hq
        rw [hr, Option.map_eq_some_iff] at hu
        obtain ⟨_, -, hu⟩ := hu
        cases hu
    · have hu := h.unnamed fun ⟨n, hn⟩ => hq ⟨n, hn.1⟩
      rw [parseLine_unquoted hbuff ssid (Nat.le_of_not_lt hs) hq] at hu
      cases hu
  · rintro (hs | ⟨name, hn, h0⟩)
    · refine ⟨fun name hn => ?_, fun _ => parseLine_short hbuff ssid hs⟩
      have := hn.1.length
      omega
    · refine ⟨fun name' hn' => ?_, fun hu => absurd ⟨name, hn⟩ hu⟩
      obtain rfl := hn.1.unique hn'.1
      obtain ⟨ssid', hr, hv⟩ := parseLine_named hbuff ssid hn
      exact ⟨ssid', hr, by rwa [holds_iff hv, List.head?_drop]⟩

end

/-- A file with a line in it: the second `fgets` reads from a closed stream. -/
theorem getApInfo_line {file : List Byte} (h : file ≠ []) (ssid : Option (Buf halMaxSsidLen)) :
    Jabsco.halWifiGetApInfo (some file) ssid = none := by
  have hread (lines : List (List Byte)) (buff : Buf Jabsco.maxline) : Jabsco.readLines false buff lines = none := by
    cases lines <;> rfl
  obtain ⟨line, lines, hl⟩ := List.exists_cons_of_ne_nil (@fgetsLines_ne_nil Jabsco.maxline [] file (.inr h))
  simp only [Jabsco.halWifiGetApInfo, hl, Jabsco.readLines, if_true, hread, Option.bind_eq_bind, Option.bind_fun_none,
    Option.bind_none]

/-- A call without a line to read. -/
theorem getApInfo_empty {file : Option (List Byte)} (h : file.getD [] = []) (ssid : Buf halMaxSsidLen) :
    Jabsco.halWifiGetApInfo file (some ssid) = some (-1, some ssid) := by
  cases file with
  | none => rfl
  | some file =>
    obtain rfl : file = [] := h
    have hbuff : (Buf.zero 256).bytes = [] ++ 0 :: zeros 255 := rfl
    exact @parseLine_short ⟨[], List.not_mem_nil⟩ _ _ hbuff ssid Nat.zero_lt_two

/-- The call parses a file exactly if there is no line in it. -/
theorem parsed_iff (file : Option (List Byte)) (ssid : Buf halMaxSsidLen) :
    Parsed (lineOf file) ssid (Jabsco.halWifiGetApInfo file (some ssid)) ↔ file.getD [] = [] := by
  constructor
  · intro h
    by_contra hne
    obtain ⟨file, rfl⟩ : ∃ f, file = some f := Option.ne_none_iff_exists'.mp fun he => hne (by rw [he]; rfl)
    rw [getApInfo_line (show file ≠ [] from hne)] at h
    by_cases hn : ∃ name, Named (lineOf (some file)) name
    · obtain ⟨name, hn⟩ := hn
      obtain ⟨ssid', hr, -⟩ := h.named name hn
      cases hr
    · cases h.unnamed hn
  · intro h
    have hline : lineOf file = [] := by
      rw [lineOf, h]
      rfl
    rw [getApInfo_empty h, hline]
    refine ⟨fun name hn => ?_, fun _ => rfl⟩
    have := hn.1.length
    rw [List.length_nil] at this
    omega

/-- The line of an interface in a network. -/
theorem not_parsed : ¬ Parsed (lineOf (some (ascii "wlan0 ESSID:\"home\"\n"))) (Buf.zero 33)
    (Jabsco.halWifiGetApInfo (some (ascii "wlan0 ESSID:\"home\"\n")) (some (Buf.zero 33))) := by
  intro h
  have hline : lineOf (some (ascii "wlan0 ESSID:\"home\"\n")) = ascii "wlan0 ESSID:\"home\"\n" := by decide +kernel
  have hr : Jabsco.halWifiGetApInfo (some (ascii "wlan0 ESSID:\"home\"\n")) (some (Buf.zero 33)) = none := by
    decide +kernel
  have hn : Named (ascii "wlan0 ESSID:\"home\"\n") (ascii "home") :=
    ⟨⟨ascii "wlan0 ESSID:", [0x0A], by decide, by decide, by decide⟩, by decide⟩
  rw [hline, hr] at h
  obtain ⟨ssid', hr, -⟩ := h.named _ hn
  cases hr

/-! ## ubuntu -/

theorem toInt_length {n : Nat} (h : n ≤ 0x100) : (Int32.ofNat n).toInt = n :=
  Int32.toInt_ofNat_of_lt (by omega)

/-- The place of the terminator, in its type. -/
theorem toNat_pos {n : Nat} (h : 1 ≤ n) (hn : n ≤ 0x100) : (Int32.ofNat n - 1).toUInt32.toUInt8.toNat = n - 1 := by
  have ho : (UInt32.ofNat n).toNat = n := UInt32.toNat_ofNat_of_lt' (by show n < 4294967296; omega)
  have hle : (1 : UInt32) ≤ UInt32.ofNat n := by
    rw [UInt32.le_iff_toNat_le, ho]
    exact h
  rw [Int32.toUInt32_sub, Int32.toUInt32_ofNat', UInt32.toNat_toUInt8, Int32.toUInt32_ofNat,
    UInt32.toNat_sub_of_le _ _ hle, ho]
  show (n - 1) % 256 = n - 1
  omega

section

variable {size max : Nat} (dst : Buf size) (hmax : max ≤ 0x100)

include hmax

/-- A line that the array holds, with its newline. -/
theorem readStringFromFile_line {s : CString} (h1 : 1 ≤ s.bytes.length) (h : s.bytes.length < max) (hs : max ≤ size) :
    ∃ dst', readStringFromFile dst (some (s.bytes ++ [0x0A])) (Int32.ofNat max) = some dst' ∧ Holds dst' s.bytes := by
  have hlen : (s.bytes ++ [0x0A]).length = s.bytes.length + 1 := by rw [List.length_append, List.length_singleton]
  have hi := toInt_length (show s.bytes.length + 1 ≤ 0x100 by omega)
  have hcond : 1 < Int32.ofNat (s.bytes.length + 1) ∧ Int32.ofNat (s.bytes.length + 1) ≤ Int32.ofNat max := by
    rw [Int32.lt_iff_toInt_lt, Int32.le_iff_toInt_le, hi, toInt_length hmax]
    show (1 : Int) < _ ∧ _
    omega
  have hsize : sizeT (Int32.ofNat (s.bytes.length + 1)) = s.bytes.length + 1 := by
    rw [sizeT_of_nonneg (by rw [hi]; omega), hi, Int.toNat_natCast]
  obtain ⟨b, hb, hv⟩ := dst.memcpy_eq (show 0 + (s.bytes.length + 1) ≤ size by omega) (Nat.le_of_eq hlen.symm)
  rw [List.take_of_length_le (Nat.le_of_eq hlen), splice, List.take_zero, List.nil_append, List.append_assoc] at hv
  have hd : b.bytes = s.bytes ++ b.bytes.drop s.bytes.length := by rw [hv, List.drop_left]
  obtain ⟨dst', hm, hv'⟩ := b.memset_nul hd (by omega)
  refine ⟨dst', ?_, _, hv'⟩
  simp only [readStringFromFile, hlen, hcond, and_self, if_true, hsize, hb, Option.bind_eq_bind, Option.bind_some,
    toNat_pos (show 1 ≤ s.bytes.length + 1 by omega) (by omega), Nat.add_sub_cancel]
  exact hm

/-- A file of another length: all that changes is the first byte. -/
theorem readStringFromFile_other {file : List Byte} (hf : file.length ≤ 0x100) (h : file.length ≤ 1 ∨ max < file.length)
    (hs : 0 < size) :
    ∃ dst', readStringFromFile dst (some file) (Int32.ofNat max) = some dst' ∧ dst'.bytes = 0 :: dst.bytes.drop 1 := by
  have hcond : ¬ (1 < Int32.ofNat file.length ∧ Int32.ofNat file.length ≤ Int32.ofNat max) := by
    rw [Int32.lt_iff_toInt_lt, Int32.le_iff_toInt_le, toInt_length hf, toInt_length hmax]
    show ¬ ((1 : Int) < _ ∧ _)
    omega
  obtain ⟨dst', hm, hv⟩ := dst.memset_nul (show dst.bytes = [] ++ dst.bytes.drop 0 from rfl) hs
  exact ⟨dst', by simp only [readStringFromFile, hcond, if_false]; exact hm, hv⟩

/-- A field that has been printed, or is absent. -/
theorem readStringFromFile_printed {s : CString} {file : Option (List Byte)} (hp : Printed s.bytes file)
    (h : s.bytes.length < max) (hs : max ≤ size) :
    ∃ dst', readStringFromFile dst file (Int32.ofNat max) = some dst' ∧ Holds dst' s.bytes := by
  rcases Nat.eq_zero_or_pos s.bytes.length with h0 | h1
  · have hn := List.eq_nil_of_length_eq_zero h0
    obtain ⟨f, rfl, hf⟩ : ∃ f, file = some f ∧ f.length ≤ 1 := by
      rcases hp with rfl | ⟨-, rfl⟩
      · exact ⟨_, rfl, by rw [hn]; decide⟩
      · exact ⟨_, rfl, Nat.zero_le 1⟩
    obtain ⟨dst', hr, hv⟩ := readStringFromFile_other dst hmax (by omega) (.inl hf) (by omega)
    exact ⟨dst', hr, _, by rw [hv, hn, List.nil_append]⟩
  · rcases hp with rfl | ⟨hn, -⟩
    · exact readStringFromFile_line dst hmax h1 h hs
    · rw [hn] at h1
      exact absurd h1 (by decide)

end

theorem length_macText (octets : Buf ethAlen) : (macText octets.bytes).length = 17 := by
  obtain ⟨bytes, h⟩ := octets
  match bytes, h with
  | [a, b, c, d, e, f], _ => rfl

/-- The printed BSSID is longer than its array. -/
theorem readStringFromFile_mac {octets : Buf ethAlen} {file : Option (List Byte)}
    (hp : Printed (macText octets.bytes) file) (bssid : Buf ethAlen) :
    ∃ bssid', readStringFromFile bssid file (Int32.ofNat ethAlen) = some bssid' ∧
      bssid'.bytes = 0 :: bssid.bytes.drop 1 := by
  have hl := length_macText octets
  obtain ⟨f, rfl, hf⟩ : ∃ f, file = some f ∧ f.length = 18 := by
    rcases hp with rfl | ⟨hn, -⟩
    · exact ⟨_, rfl, by rw [List.length_append, hl]; rfl⟩
    · rw [hn] at hl
      cases hl
  exact readStringFromFile_other bssid (by decide) (by omega) (.inr (by rw [hf]; decide)) (by decide)

/-- The call reports the network exactly if the octets of its BSSID are a zero
and the five that `bssid` has behind its first. -/
theorem reported_iff (n : Network) {files : Files} (h : Shown n files) (ssid : Buf halMaxSsidLen)
    (passwd : Buf halMaxPasswdLen) (bssid : Buf ethAlen) :
    Reported n (Ubuntu.halWifiGetApInfo files ⟨some ssid, some passwd, some bssid⟩) ↔
      n.bssid.bytes = 0 :: bssid.bytes.drop 1 := by
  have hs := n.length_ssid
  have hp := n.length_passphrase
  obtain ⟨ssid', hssid, holds⟩ := readStringFromFile_printed ssid (show halMaxSsidLen ≤ 0x100 by decide) h.ssid
    (Nat.lt_succ_of_le hs.2) (Nat.le_refl _)
  obtain ⟨passwd', hpasswd, holdp⟩ := readStringFromFile_printed passwd (show halMaxPasswdLen ≤ 0x100 by decide)
    h.passphrase (Nat.lt_succ_of_le hp) (Nat.le_refl _)
  obtain ⟨bssid', hbssid, hv⟩ := readStringFromFile_mac h.bssid bssid
  have hr : Ubuntu.halWifiGetApInfo files ⟨some ssid, some passwd, some bssid⟩ =
      some (0, ⟨some ssid', some passwd', some bssid'⟩) := by
    simp only [Ubuntu.halWifiGetApInfo, readUnlessNull, hssid, hpasswd, hbssid, Option.map_some, Option.bind_eq_bind,
      Option.bind_some]
    rfl
  rw [hr, ← hv]
  constructor
  · rintro ⟨_, _, he, -, -⟩
    cases he
    rfl
  · intro he
    obtain rfl := Buf.ext he.symm
    exact ⟨ssid', passwd', rfl, holds, holdp⟩

/-- An access point of an address that begins with a zero. -/
def home : Network where
  ssid := ⟨ascii "home", by decide⟩
  passphrase := ⟨ascii "pa55word", by decide⟩
  bssid := ⟨[0x00, 0x1a, 0x2b, 0x3c, 0x4d, 0x5e], rfl⟩
  length_ssid := by decide
  length_passphrase := by decide

/-- The files for `home`. -/
def homeFiles : Files :=
  ⟨some (ascii "home\n"), some (ascii "pa55word\n"), some (ascii "00:1a:2b:3c:4d:5e\n")⟩

theorem reported_iff_home :
    Reported home (Ubuntu.halWifiGetApInfo homeFiles ⟨some (Buf.zero 33), some (Buf.zero 65), some (Buf.zero 6)⟩) ↔
      home.bssid.bytes = 0 :: (Buf.zero 6).bytes.drop 1 := by
  have hs : Shown home homeFiles := ⟨.inl rfl, .inl rfl, .inl rfl⟩
  exact reported_iff home hs (Buf.zero 33) (Buf.zero 65) (Buf.zero 6)

theorem not_reported :
    ¬ Reported home
      (Ubuntu.halWifiGetApInfo homeFiles ⟨some (Buf.zero 33), some (Buf.zero 65), some (Buf.zero 6)⟩) := by
  have hb : (Ubuntu.halWifiGetApInfo homeFiles ⟨some (Buf.zero 33), some (Buf.zero 65), some (Buf.zero 6)⟩).map
      (fun r => r.2.bssid) = some (some (Buf.zero 6)) := by decide +kernel
  rintro ⟨ssid, passwd, hr, -, -⟩
  rw [hr] at hb
  have hz : home.bssid = Buf.zero 6 := Option.some.inj (Option.some.inj hb)
  exact absurd hz (by decide)

end Linkkit.Proof.Wifi
