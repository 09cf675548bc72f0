import Linkkit.Spec.Supplicant

/-!
# The network that `supplicantOK.conf` names

The name and the password of the network are written as they are. Whatever they
hold, the array holds the file (`suppconf_eq`), and if they hold no newline its
lines are those of a block (`linesOf_lines`), as long as the file is not cut before
the brace that ends it (`not_ended_take`). `confFile_names_iff` says so of every
run, for any reader of the documented kind.
-/

namespace Linkkit.Proof.Supplicant

open Impl.Supplicant Spec.Supplicant

variable {ssid passwd : CString}

/-! ## The lines of the file -/

/-- The lines before the end of the block. -/
def body (ssid passwd : List Byte) : List (List Byte) :=
  [ascii "network=\x7b", ascii "    " ++ writeField 0x3D (ascii "ssid", quoted ssid) ++ ascii " ",
    ascii "    key_mgmt=WPA-PSK", ascii "    scan_ssid=1",
    ascii "    " ++ writeField 0x3D (ascii "psk", quoted passwd)]

theorem format_eq (ssid passwd : List Byte) :
    format (ascii "network=\x7b\n    ssid=\"%s\" \n    key_mgmt=WPA-PSK\n    scan_ssid=1\n    psk=\"%s\"\n\x7d\n")
      [ssid, passwd] = [0x0A].intercalate (body ssid passwd ++ [ascii "\x7d", []]) := by
  simp [format, ascii, body, quoted, writeField]

theorem length_format (ssid passwd : List Byte) :
    ([0x0A].intercalate (body ssid passwd ++ [ascii "\x7d", []])).length = 73 + ssid.length + passwd.length := by
  simp [body, quoted, writeField, ascii]
  omega

/-- The array holds the file. -/
theorem suppconf_eq (hs : ssid.bytes.length ≤ 32) (hp : passwd.bytes.length ≤ 64) :
    suppconf ssid passwd = [0x0A].intercalate (body ssid.bytes passwd.bytes ++ [ascii "\x7d", []]) := by
  rw [suppconf, snprintf, format_eq]
  refine List.take_of_length_le ?_
  rw [length_format]
  omega

theorem body_noNewline {ssid passwd : List Byte} (hns : 0x0A ∉ ssid) (hnp : 0x0A ∉ passwd) :
    ∀ l ∈ body ssid passwd, 0x0A ∉ l := by
  simp [body, quoted, writeField, ascii, hns, hnp]

/-- The lines of the file without their blanks. -/
theorem map_trim_body (ssid passwd : List Byte) : (body ssid passwd).map (trim isBlank) =
    ascii "network=\x7b" :: (fields ssid passwd).map (writeField 0x3D) := by
  have hblank : ∀ c ∈ ascii "    ", isBlank c := by simp [ascii, isBlank]
  have hone : ∀ c ∈ ascii " ", isBlank c := by simp [ascii, isBlank]
  have hssid : trim isBlank (ascii "    " ++ writeField 0x3D (ascii "ssid", quoted ssid) ++ ascii " ") =
      writeField 0x3D (ascii "ssid", quoted ssid) :=
    trim_pad (l := ascii "sid=\"" ++ ssid) hblank hone (show isBlank 0x73 = false by decide)
      (show isBlank 0x22 = false by decide)
  have hpsk : trim isBlank (ascii "    " ++ writeField 0x3D (ascii "psk", quoted passwd)) =
      writeField 0x3D (ascii "psk", quoted passwd) := by
    rw [← List.append_nil (ascii "    " ++ _)]
    exact trim_pad (l := ascii "sk=\"" ++ passwd) hblank (fun c hc => absurd hc List.not_mem_nil)
      (show isBlank 0x70 = false by decide) (show isBlank 0x22 = false by decide)
  have hrest : trim isBlank (ascii "network=\x7b") = ascii "network=\x7b" ∧
      trim isBlank (ascii "    key_mgmt=WPA-PSK") = writeField 0x3D (ascii "key_mgmt", ascii "WPA-PSK") ∧
      trim isBlank (ascii "    scan_ssid=1") = writeField 0x3D (ascii "scan_ssid", ascii "1") := by decide +kernel
  simp only [body, fields, List.map_cons, List.map_nil, hssid, hpsk, hrest]

/-- The lines of a file that has its brace, with or without the newline after it. -/
theorem linesOf_lines {ssid passwd : List Byte} (hns : 0x0A ∉ ssid) (hnp : 0x0A ∉ passwd) {rest : List (List Byte)}
    (hrest : ∀ l ∈ rest, l = []) : linesOf ([0x0A].intercalate (body ssid passwd ++ ascii "\x7d" :: rest)) =
      ascii "network=\x7b" :: ((fields ssid passwd).map (writeField 0x3D) ++ ascii "\x7d" :: rest) := by
  have hlines : ∀ l ∈ body ssid passwd ++ ascii "\x7d" :: rest, 0x0A ∉ l := by
    intro l hl
    rcases List.mem_append.mp hl with hl | hl
    · exact body_noNewline hns hnp l hl
    · rcases List.mem_cons.mp hl with rfl | hl
      · decide
      · rw [hrest l hl]
        exact List.not_mem_nil
  have hmap : rest.map (trim isBlank) = rest := by
    refine (List.map_congr_left fun l hl => ?_).trans (List.map_id rest)
    rw [hrest l hl]
    rfl
  rw [linesOf, List.splitOn_intercalate 0x0A hlines (by simp [body]), List.map_append, map_trim_body, List.map_cons,
    hmap, List.cons_append]
  rfl

/-! ## A file that was cut -/

/-- In a file that is cut before its brace no line starts with a brace. -/
theorem not_ended_take (hs : ssid.bytes.length ≤ 32) (hp : passwd.bytes.length ≤ 64) (hns : 0x0A ∉ ssid.bytes)
    (hnp : 0x0A ∉ passwd.bytes) {written : Nat} (hw : written + 1 < (suppconf ssid passwd).length) :
    ¬∃ l ∈ linesOf ((suppconf ssid passwd).take written), l.head? = some 0x7D := by
  have hopen : suppconf ssid passwd =
      [0x0A].intercalate (body ssid.bytes passwd.bytes ++ [[]]) ++ [0x7D, 0x0A] := by
    rw [suppconf_eq hs hp]
    simp [body, ascii]
  have hle : written ≤ ([0x0A].intercalate (body ssid.bytes passwd.bytes ++ [[]])).length := by
    rw [hopen, List.length_append] at hw
    simp only [List.length_cons, List.length_nil] at hw
    omega
  rw [hopen, List.take_append_of_le_length hle]
  rintro ⟨_, hmem, hbrace⟩
  obtain ⟨l, hl, rfl⟩ := List.mem_map.mp hmem
  obtain ⟨whole, hwhole, hcut⟩ := prefix_of_mem_splitOn (List.take_prefix written _) hl
  have hlines : ∀ l ∈ body ssid.bytes passwd.bytes ++ [[]], 0x0A ∉ l := by
    intro l hl
    rcases List.mem_append.mp hl with hl | hl
    · exact body_noNewline hns hnp l hl
    · rw [List.mem_singleton.mp hl]
      exact List.not_mem_nil
  rw [List.splitOn_intercalate 0x0A hlines (by simp [body])] at hwhole
  have hblank : ∀ c ∈ ascii "    ", isBlank c := by simp [ascii, isBlank]
  have hnone : ∀ c ∈ ([] : List Byte), isBlank c := fun c hc => absurd hc List.not_mem_nil
  -- every line is empty or starts, after its blanks, with a letter
  have hstart : ∃ pad c rest, (∀ b ∈ pad, isBlank b) ∧ isBlank c = false ∧ c ≠ 0x7D ∧ whole <+: pad ++ c :: rest := by
    simp only [body, List.cons_append, List.nil_append, List.mem_cons, List.not_mem_nil, or_false] at hwhole
    rcases hwhole with rfl | rfl | rfl | rfl | rfl | rfl
    · exact ⟨[], 0x6E, _, hnone, by decide, by decide, List.prefix_rfl⟩
    · exact ⟨ascii "    ", 0x73, _, hblank, by decide, by decide, List.prefix_rfl⟩
    · exact ⟨ascii "    ", 0x6B, _, hblank, by decide, by decide, List.prefix_rfl⟩
    · exact ⟨ascii "    ", 0x73, _, hblank, by decide, by decide, List.prefix_rfl⟩
    · exact ⟨ascii "    ", 0x70, _, hblank, by decide, by decide, List.prefix_rfl⟩
    · exact ⟨[], 0x6E, [], hnone, by decide, by decide, List.nil_prefix⟩
  obtain ⟨pad, c, rest, hpad, hc, hne, hwhole⟩ := hstart
  exact hne (head_trim_of_cut hpad hc (hcut.trans hwhole) 0x7D hbrace).symm

/-! ## Reading the file -/

section

variable {reader : Reader}

/-- A name and a passphrase without newlines are read from the file as they are. -/
theorem network_suppconf (hreader : Documented reader) (hs : 1 ≤ ssid.bytes.length) (hs' : ssid.bytes.length ≤ 32)
    (hp : passwd.bytes.length ≤ 64) (hns : 0x0A ∉ ssid.bytes) (hpass : reader.Passphrase passwd.bytes) {written : Nat}
    (hw : (suppconf ssid passwd).length ≤ written + 1) :
    reader.network ((suppconf ssid passwd).take written) = some (asked ssid.bytes passwd.bytes) := by
  have hnp := (hreader.passphrase _ hpass).2.2
  have hlines {rest : List (List Byte)} (hrest : ∀ l ∈ rest, l = []) :=
    hreader.block _ _ rest _ _ (linesOf_lines hns hnp hrest) hrest (List.Perm.refl _) hs hs' hpass
  rcases Nat.lt_or_ge written (suppconf ssid passwd).length with hlt | hge
  · -- only the last newline is missing
    have hcut : (suppconf ssid passwd).take written =
        [0x0A].intercalate (body ssid.bytes passwd.bytes ++ [ascii "\x7d"]) := by
      have hsplit : suppconf ssid passwd =
          [0x0A].intercalate (body ssid.bytes passwd.bytes ++ [ascii "\x7d"]) ++ [0x0A] := by
        rw [suppconf_eq hs' hp]
        simp [body, ascii]
      have hlen : written = ([0x0A].intercalate (body ssid.bytes passwd.bytes ++ [ascii "\x7d"])).length := by
        rw [hsplit, List.length_append, List.length_singleton] at hw hlt
        omega
      rw [hsplit, hlen, List.take_left]
    rw [hcut]
    exact hlines fun l hl => absurd hl List.not_mem_nil
  · rw [List.take_of_length_le hge, suppconf_eq hs' hp]
    exact hlines fun l hl => List.mem_singleton.mp hl

theorem network_suppconf_iff (hreader : Documented reader) (hs : 1 ≤ ssid.bytes.length) (hs' : ssid.bytes.length ≤ 32)
    (hp : passwd.bytes.length ≤ 64) (hns : 0x0A ∉ ssid.bytes) (written : Nat) :
    reader.network ((suppconf ssid passwd).take written) = some (asked ssid.bytes passwd.bytes) ↔
      (suppconf ssid passwd).length ≤ written + 1 ∧ reader.Passphrase passwd.bytes := by
  constructor
  · intro h
    have hpass := hreader.psk _ _ h
    refine ⟨?_, hpass⟩
    by_contra hw
    exact not_ended_take hs' hp hns (hreader.passphrase _ hpass).2.2 (Nat.lt_of_not_le hw) (hreader.ended _ _ h)
  · rintro ⟨hw, hpass⟩
    exact network_suppconf hreader hs hs' hp hns hpass hw

end

/-! ## The reader of blocks -/

theorem unquote_quoted (s : List Byte) : unquote (quoted s) = some s := by
  rw [quoted, unquote, if_pos ⟨rfl, List.getLast?_concat⟩, List.dropLast_concat]

/-- The fields of a block are read in their order. -/
theorem readBlock_lines {conf : List Byte} {fs : List (List Byte × List Byte)} {rest : List (List Byte)}
    (h : linesOf conf = ascii "network=\x7b" :: (fs.map (writeField 0x3D) ++ ascii "\x7d" :: rest))
    (hkeys : ∀ f ∈ fs, 0x3D ∉ f.1) : readBlock conf = some fs := by
  have hfields : (fs.map (writeField 0x3D) ++ ascii "\x7d" :: rest).takeWhile (· ≠ ascii "\x7d") =
      fs.map (writeField 0x3D) := by
    rw [List.takeWhile_append_of_pos]
    · simp
    · -- the brace that ends the block is no field
      intro l hl
      obtain ⟨f, hf, rfl⟩ := List.mem_map.mp hl
      refine decide_eq_true fun he => ?_
      have hmem : 0x3D ∈ writeField 0x3D f := List.mem_append_right f.1 List.mem_cons_self
      rw [he] at hmem
      revert hmem
      decide
  rw [readBlock, h]
  dsimp only
  rw [if_pos ⟨rfl, List.mem_append_right _ List.mem_cons_self⟩, hfields, mapM_cut hkeys]

/-- It is of the documented kind. -/
theorem blockReader_documented : Documented blockReader where
  passphrase p h := ⟨h.1, h.2.1, fun hn => absurd (h.2.2 _ hn).1 (by decide)⟩
  block := by
    intro conf fs rest ssid passwd hlines _ hperm hs hs' hpass
    have hkeys : ∀ f ∈ fs, 0x3D ∉ f.1 := by
      have hall : ∀ f ∈ fields ssid passwd, (0x3D : Byte) ∉ f.1 := by
        simp only [fields, List.forall_mem_cons]
        decide +kernel
      exact fun f hf => hall f (hperm.mem_iff.mp hf)
    have hnodup : (fs.reverse.map Prod.fst).Nodup := by
      have hfields : ((fields ssid passwd).map Prod.fst).Nodup := by
        show [ascii "ssid", ascii "key_mgmt", ascii "scan_ssid", ascii "psk"].Nodup
        decide +kernel
      exact (((List.reverse_perm fs).trans hperm).map Prod.fst).nodup_iff.mpr hfields
    have hlookup {key value : List Byte} (hf : (key, value) ∈ fields ssid passwd) :
        fs.reverse.lookup key = some value :=
      lookup_of_mem hnodup (List.mem_reverse.mpr (hperm.mem_iff.mpr hf))
    have hssid : fs.reverse.lookup (ascii "ssid") = some (quoted ssid) := hlookup (by simp [fields])
    have hpsk : fs.reverse.lookup (ascii "psk") = some (quoted passwd) := hlookup (by simp [fields])
    have hkey : fs.reverse.lookup (ascii "key_mgmt") = some (ascii "WPA-PSK") := hlookup (by simp [fields])
    have hscan : fs.reverse.lookup (ascii "scan_ssid") = some (ascii "1") := hlookup (by simp [fields])
    simp only [blockReader, readBlock_lines hlines hkeys, hssid, hpsk, hkey, hscan, unquote_quoted,
      Option.bind_eq_bind, Option.bind_some]
    exact if_pos ⟨hs, hs', hpass⟩
  ended := by
    intro conf n h
    obtain ⟨fs, hfs, -⟩ := Option.bind_eq_some_iff.mp h
    rw [readBlock] at hfs
    split at hfs
    · rename_i first rest he
      split at hfs
      · rename_i hends
        rw [he]
        exact ⟨_, List.mem_cons_of_mem first hends.2, rfl⟩
      · cases hfs
    · cases hfs
  psk := by
    intro conf n h
    obtain ⟨fs, -, h⟩ := Option.bind_eq_some_iff.mp h
    obtain ⟨value, -, h⟩ := Option.bind_eq_some_iff.mp h
    obtain ⟨ssid, -, h⟩ := Option.bind_eq_some_iff.mp h
    obtain ⟨value', -, h⟩ := Option.bind_eq_some_iff.mp h
    obtain ⟨psk, -, h⟩ := Option.bind_eq_some_iff.mp h
    obtain ⟨keyMgmt, -, h⟩ := Option.bind_eq_some_iff.mp h
    obtain ⟨scanSsid, -, h⟩ := Option.bind_eq_some_iff.mp h
    split at h
    · rename_i hok
      cases h
      exact hok.2.2
    · cases h

/-! ## Runs -/

theorem step_last {file file' : Option (List Byte)} {hist : List (Call × Int32)} {c : Call} {ret : Int32}
    (h : ∀ c, Last c hist → ∃ written, c.fopen = some written ∧ file = some ((suppconf c.ssid c.passwd).take written))
    (hs : step file c = some (file', ret)) : ∀ c', Last c' (hist ++ [(c, ret)]) →
      ∃ written, c'.fopen = some written ∧ file' = some ((suppconf c'.ssid c'.passwd).take written) := by
  intro c' hl
  unfold step halAwssConnectAp at hs
  cases ho : c.fopen with
  | none =>
    rw [ho] at hs
    cases hs
    rcases since_append_singleton.mp hl with he | ⟨hl, -⟩
    · cases he
    · exact h c' hl
  | some written =>
    rw [ho] at hs
    cases hs
    rcases since_append_singleton.mp hl with he | ⟨-, hne⟩
    · cases he
      exact ⟨written, ho, rfl⟩
    · exact absurd rfl hne

/-- After any run the file names the network of the last call that returned 0,
exactly if it was written whole and the password is a passphrase. -/
theorem confFile_names_iff {reader : Reader} (hreader : Documented reader) {file file' : Option (List Byte)}
    {calls : List Call} {hist : List (Call × Int32)} (hr : run step file calls = some (file', hist))
    (hfits : ∀ c ∈ calls, c.Fits) {c : Call} (hl : Last c hist) :
    Names reader file' c ↔ c.Whole ∧ reader.Passphrase c.passwd.bytes := by
  obtain ⟨written, ho, hfile⟩ :=
    run_keeps (fun file h => ∀ c, Last c h → ∃ written, c.fopen = some written ∧
        file = some ((suppconf c.ssid c.passwd).take written))
      (fun _ _ _ _ _ => step_last) (fun c hl => absurd hl not_since_nil) hr c hl
  have hc : c ∈ calls := by
    obtain ⟨pre, e, post, rfl, rfl, -⟩ := hl
    rw [← run_inputs hr]
    exact List.mem_map_of_mem (List.mem_append_right pre List.mem_cons_self)
  obtain ⟨hs, hs', hns, hp⟩ := hfits c hc
  have hwhole : c.Whole ↔ (suppconf c.ssid c.passwd).length ≤ written + 1 := by
    unfold Call.Whole
    rw [ho]
    simp only [Option.some.injEq, exists_eq_left']
  rw [Names, hfile, hwhole]
  exact network_suppconf_iff hreader hs hs' hp hns written

/-- A name with a quote in it, a file that cannot be opened, and before them a disk
that is full. -/
def attempts : List Call :=
  [⟨⟨ascii "loft", by decide⟩, ⟨ascii "letmein1", by decide⟩, some 0⟩,
    ⟨⟨ascii "my \"net\" ", by decide⟩, ⟨ascii "#1=\"secret\"", by decide⟩, some 4096⟩,
    ⟨⟨ascii "other", by decide⟩, ⟨[], by decide⟩, none⟩]

theorem confFile_names_iff_attempts : ∃ file hist, run step none attempts = some (file, hist) ∧
    (Names blockReader file attempts[1] ↔ attempts[1].Whole ∧ IsPassphrase attempts[1].passwd.bytes) := by
  have hr : run step none attempts = some (_, [(attempts[0], (0 : Int32)), (attempts[1], 0), (attempts[2], -1)]) := rfl
  have hfits : ∀ c ∈ attempts, c.Fits := by
    simp only [attempts, List.forall_mem_cons]
    exact ⟨⟨by decide, by decide, by decide, by decide⟩, ⟨by decide, by decide, by decide, by decide⟩,
      ⟨by decide, by decide, by decide, by decide⟩, fun c hc => absurd hc List.not_mem_nil⟩
  refine ⟨_, _, hr, confFile_names_iff blockReader_documented hr hfits
    ⟨[(attempts[0], 0)], _, [(attempts[2], -1)], rfl, rfl, ?_⟩⟩
  decide

end Linkkit.Proof.Supplicant
