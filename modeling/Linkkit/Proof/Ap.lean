import Linkkit.Spec.Ap

/-!
# What the ubuntu wrapper does with access points

`HAL_Awss_Connect_Ap` puts the name and the password into its commands as they
are, and gives the arguments of one command the wrong way round: its commands
are the intended ones exactly for a network with a password, if both are plain
to the shell (`intended_iff`).

`HAL_Awss_Open_Ap` stores a name without a terminator, over that which is there:
`HAL_Awss_Close_Ap` closes what was opened last in every run exactly if no name
is shorter than the one it is stored over (`closesLast_iff`).
-/

namespace Linkkit.Proof.Ap

open Impl.Ap Spec.Ap Shell

/-! ## The commands of `HAL_Awss_Connect_Ap` -/

/-- The commands as words, the last of each apart. -/
def lines (ssid passwd : List Byte) : List (List String × List Byte) :=
  [(["down"], ascii "linkkit"), (["delete"], ascii "linkkit"),
    (["add", "con-name", "linkkit", "ifname", "wlx00259cf84f36", "type", "wifi", "ssid"], ssid)] ++
  (if passwd.length = 0 then [(["modify", "none", "wifi-sec.key-mgmt"], ascii "linkkit")]
  else [(["modify", "linkkit", "wifi-sec.key-mgmt"], ascii "wpa-psk"),
    (["modify", "linkkit", "wifi-sec.psk"], passwd)]) ++
  [(["up"], ascii "linkkit")]

/-- The words in front of the last one. -/
def front (args : List String) : List (List Byte) := words ["nmcli", "connection"] ++ words args

def lineOf (l : List String × List Byte) : List Byte := line (front l.1) l.2

theorem formats_eq (ssid passwd : CString) :
    (connectApFormats ssid passwd).map (fun f => format (ascii f.fmt) f.args) =
      (lines ssid.bytes passwd.bytes).map lineOf := by
  by_cases hp : passwd.bytes.length = 0
  · simp [connectApFormats, lines, hp, lineOf, front, format, ascii, line, words, gIfname]
  · simp [connectApFormats, lines, hp, lineOf, front, format, ascii, line, words, gIfname]

/-- What holds of every command. -/
theorem forall_mem_lines {P : List String × List Byte → Prop} {ssid passwd : List Byte}
    (hdown : P (["down"], ascii "linkkit")) (hdelete : P (["delete"], ascii "linkkit"))
    (hadd : P (["add", "con-name", "linkkit", "ifname", "wlx00259cf84f36", "type", "wifi", "ssid"], ssid))
    (hnone : passwd = [] → P (["modify", "none", "wifi-sec.key-mgmt"], ascii "linkkit"))
    (hmgmt : P (["modify", "linkkit", "wifi-sec.key-mgmt"], ascii "wpa-psk"))
    (hpsk : passwd ≠ [] → P (["modify", "linkkit", "wifi-sec.psk"], passwd))
    (hup : P (["up"], ascii "linkkit")) : ∀ l ∈ lines ssid passwd, P l := by
  by_cases hp : passwd = []
  · simp only [lines, hp, List.length_nil, if_true, List.cons_append, List.nil_append, List.forall_mem_cons]
    exact ⟨hdown, hdelete, hadd, hnone hp, hup, nofun⟩
  · simp only [lines, List.length_eq_zero_iff, hp, if_false, List.cons_append, List.nil_append,
      List.forall_mem_cons]
    exact ⟨hdown, hdelete, hadd, hmgmt, hpsk hp, hup, nofun⟩

/-- The words that the commands have whatever the arguments. -/
def fixedWords : List String :=
  ["nmcli", "connection", "down", "delete", "add", "con-name", "linkkit", "ifname", "wlx00259cf84f36", "type", "wifi",
    "ssid", "modify", "none", "wifi-sec.key-mgmt", "wpa-psk", "wifi-sec.psk", "up"]

theorem plain_fixed : ∀ w ∈ fixedWords, Plain (ascii w) := by decide +kernel

theorem plain_front {ssid passwd : List Byte} : ∀ l ∈ lines ssid passwd, ∀ w ∈ front l.1, Plain w := by
  have hfront {args : List String} (h : ∀ a ∈ args, a ∈ fixedWords) : ∀ w ∈ front args, Plain w := by
    have hcommand : ∀ a ∈ ["nmcli", "connection"], a ∈ fixedWords := by simp [fixedWords]
    intro w hw
    simp only [front, words, ← List.map_append] at hw
    obtain ⟨a, ha, rfl⟩ := List.mem_map.mp hw
    rcases List.mem_append.mp ha with ha | ha
    · exact plain_fixed a (hcommand a ha)
    · exact plain_fixed a (h a ha)
  refine forall_mem_lines ?_ ?_ ?_ (fun _ => ?_) ?_ (fun _ => ?_) ?_ <;>
  · apply hfront
    simp [fixedWords]

/-- No command is cut. -/
theorem length_lineOf {ssid passwd : List Byte} (hs : ssid.length ≤ 32) (hp : passwd.length ≤ 64) :
    ∀ l ∈ lines ssid passwd, (lineOf l).length ≤ 127 := by
  have hlen (l : List String × List Byte) {k : Nat} (hl : l.2.length ≤ k)
      (hk : (line (front l.1) []).length + k ≤ 127) : (lineOf l).length ≤ 127 := by
    rw [lineOf, length_line]
    omega
  refine forall_mem_lines ?_ ?_ ?_ (fun _ => ?_) ?_ (fun _ => ?_) ?_
  · exact hlen _ (Nat.le_refl _) (by decide)
  · exact hlen _ (Nat.le_refl _) (by decide)
  · exact hlen _ hs (by dsimp only; decide)
  · exact hlen _ (Nat.le_refl _) (by decide)
  · exact hlen _ (Nat.le_refl _) (by decide)
  · exact hlen _ hp (by dsimp only; decide)
  · exact hlen _ (Nat.le_refl _) (by decide)

theorem command_eq {ssid passwd : CString} (hs : ssid.bytes.length ≤ 32) (hp : passwd.bytes.length ≤ 64) :
    ∀ f ∈ connectApFormats ssid passwd, f.command 128 = format (ascii f.fmt) f.args := by
  intro f hf
  have hm : format (ascii f.fmt) f.args ∈ (lines ssid.bytes passwd.bytes).map lineOf := by
    rw [← formats_eq]
    exact List.mem_map_of_mem hf
  obtain ⟨l, hl, he⟩ := List.mem_map.mp hm
  rw [Format.command, snprintf, ← he]
  exact List.take_of_length_le (length_lineOf hs hp l hl)

theorem halAwssConnectAp_eq {ssid passwd : CString} (hs : ssid.bytes.length ≤ 32)
    (hp : passwd.bytes.length ≤ 64) :
    halAwssConnectAp ssid passwd = (lines ssid.bytes passwd.bytes).map lineOf := by
  rw [← formats_eq]
  exact List.map_congr_left (command_eq hs hp)

/-! ## What the shell runs -/

theorem mem_of_property {n : String} {args : List (List Byte)} {v : List Byte} (h : property n args = some v) :
    v ∈ args := by
  fun_induction property n args with
  | case1 value args => cases h; simp
  | case2 m value args hn ih => exact List.mem_cons_of_mem _ (List.mem_cons_of_mem _ (ih h))
  | case3 => cases h

section

variable {ssid passwd : List Byte} {l : List String × List Byte}

theorem runs_plain (hl : l ∈ lines ssid passwd) (hx : Plain l.2) : Runs (lineOf l) (words l.1 ++ [l.2]) := by
  rw [Runs, lineOf, commands_line (plain_front l hl) hx, front, List.append_assoc]

theorem eq_of_runs (hl : l ∈ lines ssid passwd) (hx : Plain l.2) {args : List (List Byte)}
    (h : Runs (lineOf l) args) : args = words l.1 ++ [l.2] := by
  have hr := runs_plain hl hx
  rw [Runs, h] at hr
  simpa using hr

theorem prefix_of_runs (hl : l ∈ lines ssid passwd) {args : List (List Byte)} (h : Runs (lineOf l) args) :
    words l.1 <+: args ∧ (l.2 ∈ args → Plain l.2) := by
  obtain ⟨hp, hm⟩ := commands_line_some (by simp [front, words]) (plain_front l hl) h
  exact ⟨(List.prefix_append_right_inj _).mp hp, fun hx => hm (List.mem_append_right _ hx)⟩

end

/-- Without a password the arguments of the fourth command are the wrong way
round: it modifies a connection `none`. -/
theorem not_intended {ssid passwd : CString} (hs : ssid.bytes.length ≤ 32) (hp : passwd.bytes = []) :
    ¬ Intended ssid passwd := by
  intro h
  let l : List String × List Byte := (["modify", "none", "wifi-sec.key-mgmt"], ascii "linkkit")
  have hl : l ∈ lines ssid.bytes passwd.bytes := by simp [lines, hp, l]
  have hc : lineOf l ∈ halAwssConnectAp ssid passwd := by
    rw [halAwssConnectAp_eq hs (by simp [hp])]
    exact List.mem_map_of_mem hl
  obtain ⟨args, hr, ht⟩ := h.target _ hc
  rw [eq_of_runs hl (plain_fixed "linkkit" (by simp [fixedWords])) hr] at ht
  exact absurd ht (by decide)

/-- The command that adds a connection ends in the name. -/
theorem snd_of_add {ssid passwd : List Byte} {args : List (List Byte)} :
    ∀ l ∈ lines ssid passwd, words l.1 <+: ascii "add" :: args → l.2 = ssid := by
  have hverb {v : String} {vs : List String} {x : List Byte} (hv : ascii v ≠ ascii "add")
      (h : words (v :: vs) <+: ascii "add" :: args) : x = ssid := absurd (List.cons_prefix_cons.mp h).1 hv
  exact forall_mem_lines (hverb (by decide)) (hverb (by decide)) (fun _ => rfl) (fun _ => hverb (by decide))
    (hverb (by decide)) (fun _ => hverb (by decide)) (hverb (by decide))

/-- A command that modifies a connection sets `wpa-psk`, or ends in the password. -/
theorem eq_of_modify {ssid passwd : List Byte} (hne : passwd ≠ []) {args : List (List Byte)} :
    ∀ l ∈ lines ssid passwd, words l.1 <+: ascii "modify" :: args →
      l = (["modify", "linkkit", "wifi-sec.key-mgmt"], ascii "wpa-psk") ∨ l.2 = passwd := by
  have hverb {v : String} {vs : List String} {P : Prop} (hv : ascii v ≠ ascii "modify")
      (h : words (v :: vs) <+: ascii "modify" :: args) : P := absurd (List.cons_prefix_cons.mp h).1 hv
  exact forall_mem_lines (hverb (by decide)) (hverb (by decide)) (hverb (by decide)) (fun he => absurd he hne)
    (fun _ => .inl rfl) (fun _ _ => .inr rfl) (hverb (by decide))

/-- Commands that are intended are for a network with a password, the name and the
password being plain: each is the word that its command carries. -/
theorem plain_of_intended {ssid passwd : CString} (hs : ssid.bytes.length ≤ 32) (hp : passwd.bytes.length ≤ 64)
    (h : Intended ssid passwd) : passwd.bytes ≠ [] ∧ Plain ssid.bytes ∧ Plain passwd.bytes := by
  have hmap := halAwssConnectAp_eq hs hp
  have hne : passwd.bytes ≠ [] := fun he => not_intended hs he h
  refine ⟨hne, ?_, ?_⟩
  · obtain ⟨c, hc, args, hr, hv⟩ := h.adds
    obtain ⟨l, hl, rfl⟩ := List.mem_map.mp (hmap ▸ hc)
    obtain ⟨hpre, hplain⟩ := prefix_of_runs hl hr
    rw [snd_of_add l hl hpre] at hplain
    exact hplain (List.mem_cons_of_mem _ (mem_of_property hv))
  · obtain ⟨c, hc, name, args, hr, hv⟩ := h.modifies hne
    obtain ⟨l, hl, rfl⟩ := List.mem_map.mp (hmap ▸ hc)
    obtain ⟨hpre, hplain⟩ := prefix_of_runs hl hr
    rcases eq_of_modify hne l hl hpre with rfl | he
    · have ha := eq_of_runs hl (plain_fixed "wpa-psk" (by simp [fixedWords])) hr
      cases ha
      have hn : property "wifi-sec.psk" (words ["wifi-sec.key-mgmt", "wpa-psk"]) = none := by decide
      exact nomatch hn.symm.trans hv
    · rw [he] at hplain
      exact hplain (List.mem_cons_of_mem _ (List.mem_cons_of_mem _ (mem_of_property hv)))

/-- The commands are those intended exactly for a network with a password, of
which the name and the password are plain. -/
theorem intended_iff (ssid passwd : CString) (hs : ssid.bytes.length ≤ 32) (hp : passwd.bytes.length ≤ 64) :
    Intended ssid passwd ↔ passwd.bytes ≠ [] ∧ Plain ssid.bytes ∧ Plain passwd.bytes := by
  refine ⟨plain_of_intended hs hp, fun ⟨hne, hssid, hpasswd⟩ => ?_⟩
  have hmap := halAwssConnectAp_eq hs hp
  have hname : Plain (ascii "linkkit") := plain_fixed "linkkit" (by simp [fixedWords])
  have hplain : ∀ l ∈ lines ssid.bytes passwd.bytes, Plain l.2 :=
    forall_mem_lines hname hname hssid (fun _ => hname) (plain_fixed "wpa-psk" (by simp [fixedWords]))
      (fun _ => hpasswd) hname
  have hruns {l : List String × List Byte} (hl : l ∈ lines ssid.bytes passwd.bytes) :
      lineOf l ∈ halAwssConnectAp ssid passwd ∧ Runs (lineOf l) (words l.1 ++ [l.2]) :=
    ⟨hmap ▸ List.mem_map_of_mem hl, runs_plain hl (hplain l hl)⟩
  refine ⟨command_eq hs hp, ?_, ?_, fun _ => ?_⟩
  · rw [hmap, List.forall_mem_map]
    intro l hl
    refine ⟨_, (hruns hl).2, ?_⟩
    revert l
    exact forall_mem_lines rfl rfl rfl (fun he => absurd he hne) rfl (fun _ => rfl) rfl
  · obtain ⟨hc, hr⟩ := hruns (l := (["add", "con-name", "linkkit", "ifname", "wlx00259cf84f36", "type", "wifi",
      "ssid"], ssid.bytes)) (by simp [lines])
    exact ⟨_, hc, _, hr, rfl⟩
  · obtain ⟨hc, hr⟩ := hruns (l := (["modify", "linkkit", "wifi-sec.psk"], passwd.bytes)) (by simp [lines, hne])
    exact ⟨_, hc, _, _, hr, rfl⟩

/-- A network with a password. -/
theorem intended_home : Intended ⟨ascii "home-2.4G", by decide⟩ ⟨ascii "pa55word!", by decide⟩ :=
  (intended_iff _ _ (by decide) (by decide)).mpr ⟨by decide, by decide +kernel, by decide +kernel⟩

/-- An open network, and one whose name is a command. -/
theorem not_intended_home : ¬ Intended ⟨ascii "home", by decide⟩ ⟨ascii "", by decide⟩ ∧
    ¬ Intended ⟨ascii "home;reboot", by decide⟩ ⟨ascii "pa55word!", by decide⟩ :=
  ⟨not_intended (by decide) rfl, fun h => absurd (plain_of_intended (by decide) (by decide) h).2.1 (by decide +kernel)⟩

/-! ## `g_opened_ap` -/

theorem name_ofList {s : List Byte} (hs : 0 ∉ s) (hl : s.length < gOpenedApSize) :
    name (Buf.ofList _ s) = some s := by
  rw [name, Buf.strlen_ofList hs hl, Option.map_some, Buf.bytes_ofList (Nat.le_of_lt hl), List.take_left]

/-- `HAL_Awss_Open_Ap` stores the name without a terminator. -/
theorem halAwssOpenAp_eq {ssid : CString} (hssid : ssid.bytes.length ≤ 32) {s : List Byte}
    (hl : s.length < gOpenedApSize) : ∃ commands, halAwssOpenAp ssid (Buf.ofList _ s) =
      some (Buf.ofList _ (ssid.bytes ++ s.drop ssid.bytes.length), commands) := by
  have hlt : ssid.bytes.length < gOpenedApSize := Nat.lt_of_le_of_lt hssid (by decide)
  obtain ⟨b, hb, hv⟩ := Buf.memcpy_string (Buf.ofList gOpenedApSize s) ssid [] (Nat.le_of_lt hlt)
  have he : b = Buf.ofList _ (ssid.bytes ++ s.drop ssid.bytes.length) := by
    refine Buf.ext (hv.trans ?_)
    rw [Buf.bytes_ofList (Nat.le_of_lt hl), Buf.bytes_ofList (by simp only [List.length_append, List.length_drop]; omega),
      List.drop_append, List.drop_replicate, List.append_assoc, List.length_append, List.length_drop]
    congr 3
    omega
  refine ⟨(openApFormats ssid).map (Format.command 256), ?_⟩
  simp only [halAwssOpenAp, CString.mem, strlen_string ssid.noNul, Option.bind_eq_bind, Option.bind_some, hlt, if_true,
    hb, he]
  rfl

theorem halAwssCloseAp_eq {s : List Byte} (hs : 0 ∉ s) (hl : s.length < gOpenedApSize) :
    halAwssCloseAp (Buf.ofList _ s) = some (Buf.zero _, [ascii "nmcli connection down " ++ s]) := by
  have hc : snprintf 256 "nmcli connection down %s" [s] = ascii "nmcli connection down " ++ s := by
    have hf : format (ascii "nmcli connection down %s") [s] = ascii "nmcli connection down " ++ s := by
      simp [format, ascii]
    have hlen : (ascii "nmcli connection down " ++ s).length = 22 + s.length := List.length_append
    have h256 : 22 + gOpenedApSize ≤ 256 - 1 := by decide
    rw [snprintf, hf]
    exact List.take_of_length_le (by omega)
  have ht : (Buf.ofList gOpenedApSize s).bytes.take s.length = s := by
    rw [Buf.bytes_ofList (Nat.le_of_lt hl), List.take_left]
  simp only [halAwssCloseAp, Buf.strlen_ofList hs hl, Option.bind_eq_bind, Option.bind_some, ht, hc, Buf.memset_all]
  rfl

theorem opened_openAp (h : List (Call × List (List Byte))) (ssid : CString) (commands : List (List Byte)) :
    opened (h ++ [(.openAp ssid, commands)]) = ssid.bytes := by
  rw [opened, List.getLast?_concat]

theorem opened_closeAp (h : List (Call × List (List Byte))) (commands : List (List Byte)) :
    opened (h ++ [(.closeAp, commands)]) = [] := by
  rw [opened, List.getLast?_concat]

/-- `g_opened_ap` holds the name that was opened last, and zeros, and the last
close took down the one before it. -/
structure Holds (b : Buf gOpenedApSize) (h : List (Call × List (List Byte))) : Prop where
  eq : b = Buf.ofList _ (opened h)
  noNul : 0 ∉ opened h
  fits : (opened h).length < gOpenedApSize
  closes : ∀ g commands, h = g ++ [(.closeAp, commands)] → commands = [ascii "nmcli connection down " ++ opened g]

theorem Holds.name {b : Buf gOpenedApSize} {h : List (Call × List (List Byte))} (hb : Holds b h) :
    name b = some (opened h) := by
  rw [hb.eq, name_ofList hb.noNul hb.fits]

theorem Holds.closesLast {b : Buf gOpenedApSize} {h : List (Call × List (List Byte))} (hb : Holds b h) :
    ClosesLast b h :=
  ⟨hb.name, fun g commands he _ => hb.closes g commands he⟩

theorem holds_openAp {b : Buf gOpenedApSize} {h : List (Call × List (List Byte))} (hb : Holds b h) {ssid : CString}
    (hv : ssid.bytes.length ≤ 32) (hc : NotShorter b (.openAp ssid)) :
    ∃ b' commands, step b (.openAp ssid) = some (b', commands) ∧ Holds b' (h ++ [(.openAp ssid, commands)]) := by
  obtain ⟨commands, hs⟩ := halAwssOpenAp_eq hv hb.fits
  rw [← hb.eq, List.drop_of_length_le (hc _ hb.name), List.append_nil] at hs
  refine ⟨_, commands, hs, by rw [opened_openAp], ?_, ?_, fun g out he => ?_⟩
  · rw [opened_openAp]
    exact ssid.noNul
  · rw [opened_openAp]
    exact Nat.lt_of_le_of_lt hv (by decide)
  · cases (List.append_inj' he rfl).2

theorem holds_closeAp {b : Buf gOpenedApSize} {h : List (Call × List (List Byte))} (hb : Holds b h) :
    ∃ b' commands, step b .closeAp = some (b', commands) ∧ Holds b' (h ++ [(.closeAp, commands)]) := by
  have hs := halAwssCloseAp_eq hb.noNul hb.fits
  rw [← hb.eq] at hs
  refine ⟨_, _, hs, ?_, ?_, ?_, fun g out he => ?_⟩
  · rw [opened_closeAp, Buf.ofList_nil]
  · rw [opened_closeAp]
    exact List.not_mem_nil
  · rw [opened_closeAp]
    exact Nat.zero_lt_succ _
  · obtain ⟨rfl, hout⟩ := List.append_inj' he rfl
    cases hout
    rfl

/-- A name that is shorter keeps the end of the one before it. -/
theorem not_closesLast_of_shorter {b : Buf gOpenedApSize} {h : List (Call × List (List Byte))} (hb : Holds b h)
    {ssid : CString} (hv : ssid.bytes.length ≤ 32) (hc : ¬ NotShorter b (.openAp ssid)) :
    ∃ b' commands, step b (.openAp ssid) = some (b', commands) ∧
      ¬ ClosesLast b' (h ++ [(.openAp ssid, commands)]) := by
  have hlt : ssid.bytes.length < (opened h).length := by
    by_contra hn
    refine hc fun last hlast => ?_
    rw [hb.name] at hlast
    cases hlast
    omega
  obtain ⟨commands, hs⟩ := halAwssOpenAp_eq hv hb.fits
  rw [← hb.eq] at hs
  refine ⟨_, commands, hs, fun hp => ?_⟩
  have hlen : (ssid.bytes ++ (opened h).drop ssid.bytes.length).length = (opened h).length := by
    rw [List.length_append, List.length_drop]
    omega
  have hnul : 0 ∉ ssid.bytes ++ (opened h).drop ssid.bytes.length := fun hm =>
    (List.mem_append.mp hm).elim ssid.noNul fun hm => hb.noNul (List.mem_of_mem_drop hm)
  have hname := hp.1
  rw [name_ofList hnul (hlen ▸ hb.fits), opened_openAp] at hname
  have := congrArg List.length (Option.some.inj hname)
  omega

/-- After every call of a run `g_opened_ap` is the name that was opened last, and
each close takes that down, exactly if no name that is opened is shorter than
`g_opened_ap` at the time. -/
theorem closesLast_iff {calls : List Call} (hv : ∀ c ∈ calls, c.Valid) :
    (∀ js b h, js <+: calls → run step (Buf.zero _) js = some (b, h) → ClosesLast b h) ↔
      Along step NotShorter (Buf.zero _) calls := by
  refine along_iff (fun b h (hb : Holds b h) => hb.closesLast) ?_ ?_ ?_ hv
  · rintro b h (ssid | _) hb hvalid hc
    · exact holds_openAp hb hvalid.2 hc
    · exact holds_closeAp hb
  · rintro b h (ssid | _) hb hvalid hc
    · exact not_closesLast_of_shorter hb hvalid.2 hc
    · exact absurd trivial hc
  · exact ⟨Buf.ofList_nil.symm, List.not_mem_nil, Nat.zero_lt_succ _, fun g commands he => by simp at he⟩

/-- An access point, one with a longer name, and a close. -/
theorem closesLast_longer :
    (∀ js b h, js <+: [.openAp ⟨ascii "ap", by decide⟩, .openAp ⟨ascii "home", by decide⟩, .closeAp] →
      run step (Buf.zero _) js = some (b, h) → ClosesLast b h) ↔
      Along step NotShorter (Buf.zero _)
        [.openAp ⟨ascii "ap", by decide⟩, .openAp ⟨ascii "home", by decide⟩, .closeAp] :=
  closesLast_iff fun c hc => by
    simp only [List.mem_cons, List.not_mem_nil, or_false] at hc
    rcases hc with rfl | rfl | rfl
    · exact ⟨by decide, by decide⟩
    · exact ⟨by decide, by decide⟩
    · trivial

/-- An access point, and one with a shorter name: the close is of a third name. -/
theorem closes_other : ∃ b h, run step (Buf.zero _)
    [.openAp ⟨ascii "home", by decide⟩, .openAp ⟨ascii "ap", by decide⟩, .closeAp] = some (b, h) ∧
      h.getLast?.map Prod.snd = some [ascii "nmcli connection down apme"] ∧ ¬ ClosesLast b h := by
  refine ⟨_, _, rfl, rfl, fun hp => ?_⟩
  have := hp.2 [_, _] _ rfl (by decide)
  exact absurd this (by decide +kernel)

end Linkkit.Proof.Ap
