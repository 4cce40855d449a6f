import Mathlib.Data.List.Nodup
import Pmb887x.OpcodeProbe.ArchiveFormat

set_option autoImplicit false

/-! # The round trip of an archive

What `write_archive` writes is the archive of the files, as long as their number fits its field; then the
three consumers get the files back, and nothing shorter or longer is accepted. The number is the one size
that `write_archive` does not check. -/

namespace Pmb887x.OpcodeProbe.DspMapArchive

open Library UnitTest
open Boot.Output (ascii newline)

variable {sha : Sha256} {W R : Reads} {directory : Directory} {members : List Text}

/-! ## Writing -/

theorem copyFile_eq (output input : List UInt8) : copyFile W output input = output ++ input := by
  fun_induction copyFile W output input with
  | case1 output input data hread =>
      have hinput : input = [] := by
        by_contra hne
        have hpos := W.amount_pos input.length 65536 (List.length_pos_iff.mpr hne) (by decide)
        rcases List.take_eq_nil_iff.mp hread with hzero | hnil
        · omega
        · exact hne hnil
      rw [hinput, List.append_nil]
  | case2 output input data hread ih =>
      have hinput : data ++ (W.read 65536 input).2 = input := List.take_append_drop _ _
      rw [ih, List.append_assoc, hinput]

/-- The files of a list of names as members. -/
def storedMembers (directory : Directory) (members : List Text) : List Member :=
  members.map fun name => ⟨name, (directory name).getD []⟩

/-- The files that the archive is made of: names that are valid and fit their field, and contents that fit
theirs. -/
structure Storable (directory : Directory) (members : List Text) : Prop where
  nodup : members.Nodup
  valid : ∀ name ∈ members, validName name = true ∧ name.length < 2 ^ 16
  files : ∀ name ∈ members, ∃ content, directory name = some content ∧ content.length < 2 ^ 32

theorem writeMember_eq {name : Text} {content : List UInt8} (output : List UInt8)
    (hvalid : validName name = true) (hfile : directory name = some content)
    (hsize : content.length < 2 ^ 32) :
    writeMember sha W directory output name = .ok (output ++ Member.encode sha ⟨name, content⟩) := by
  have hfits : ¬ content.length > 0xFFFFFFFF := by omega
  refine bind_eq_ok_iff.mpr ⟨name, memberPath_ok_iff.mpr ⟨hvalid, rfl⟩, ?_⟩
  rw [hfile]
  dsimp only
  rw [if_neg hfits, copyFile_eq, Member.encode]
  simp only [List.append_assoc]

/-- The archive of the files, with as much of their number as its field takes. -/
theorem writeArchive_eq (h : Storable directory members) :
    writeArchive sha W directory members = .ok (archiveBytes sha (storedMembers directory members)) := by
  have hstep : ∀ name ∈ members, ∀ output, writeMember sha W directory output name =
      .ok (output ++ Member.encode sha ⟨name, (directory name).getD []⟩) := by
    intro name hname output
    obtain ⟨content, hfile, hsize⟩ := h.files name hname
    rw [writeMember_eq output (h.valid name hname).1 hfile hsize, hfile, Option.getD_some]
  have hfold : ∀ output : List UInt8,
      members.foldl (fun output name => output ++ Member.encode sha ⟨name, (directory name).getD []⟩)
        output = output ++ (storedMembers directory members).flatMap (Member.encode sha) := by
    intro output
    rw [List.foldl_append_eq_append, storedMembers, List.flatMap_map]
    rfl
  rw [writeArchive, foldlM_eq_ok hstep, hfold, archiveBytes, storedMembers, List.length_map,
    List.append_assoc]

theorem map_name_storedMembers (directory : Directory) (members : List Text) :
    (storedMembers directory members).map Member.name = members := by
  simp [storedMembers, Function.comp_def]

theorem fits_storedMembers (h : Storable directory members) :
    ∀ m ∈ storedMembers directory members, m.Fits := by
  intro m hm
  obtain ⟨name, hname, rfl⟩ := List.mem_map.mp hm
  obtain ⟨content, hfile, hsize⟩ := h.files name hname
  refine ⟨(h.valid name hname).2, ?_⟩
  rw [hfile]
  exact hsize

theorem wellFormed_storedMembers (h : Storable directory members) (hcount : members.length < 2 ^ 32) :
    WellFormed (storedMembers directory members) where
  length_lt := by rwa [storedMembers, List.length_map]
  fits := fits_storedMembers h
  valid := by
    intro m hm
    obtain ⟨name, hname, rfl⟩ := List.mem_map.mp hm
    exact (h.valid name hname).1
  nodup := by
    rw [map_name_storedMembers]
    exact h.nodup

/-! ## What is accepted -/

/-- Some callback brings `scan_archive` to its end. -/
def Accepted (sha : Sha256) (R : Reads) (archive : List UInt8) : Prop :=
  ∃ (σ τ : Type) (callback : Callback σ τ) (s s' : σ) (members : List Text),
    scanArchive sha R callback s archive = .ok (members, s')

theorem run_ignoreCallback (s : Unit) (m : Member) : ignoreCallback.run s m = .ok s := by
  have hpieces : (pieces m.content).foldlM (fun s piece => ignoreCallback.onData m.name piece () s) s
      = .ok s := foldlM_eq_ok (g := fun s _ => s) fun _ _ _ => rfl
  exact bind_eq_ok_iff.mpr ⟨((), s), rfl, bind_eq_ok_iff.mpr ⟨s, hpieces, rfl⟩⟩

theorem foldlM_ignoreCallback (ms : List Member) : ms.foldlM ignoreCallback.run () = .ok () :=
  foldlM_eq_ok (g := fun s _ => s) fun m _ s => run_ignoreCallback s m

theorem accepted_iff {archive : List UInt8} :
    Accepted sha R archive ↔ ∃ ms, WellFormed ms ∧ archive = archiveBytes sha ms := by
  constructor
  · rintro ⟨σ, τ, callback, s, s', members, h⟩
    obtain ⟨ms, hms, rfl, -, -⟩ := scanArchive_ok_iff.mp h
    exact ⟨ms, hms, rfl⟩
  · rintro ⟨ms, hms, rfl⟩
    exact ⟨Unit, Unit, ignoreCallback, (), (), _,
      scanArchive_ok_iff.mpr ⟨ms, hms, rfl, rfl, foldlM_ignoreCallback ms⟩⟩

theorem wellFormed_of_accepted {ms : List Member} (hlength : ms.length < 2 ^ 32)
    (hfits : ∀ m ∈ ms, m.Fits) (h : Accepted sha R (archiveBytes sha ms)) : WellFormed ms := by
  obtain ⟨ms', hms', heq⟩ := accepted_iff.mp h
  obtain rfl := (prefixFree_archive sha).inj ⟨hlength, hfits⟩ ⟨hms'.length_lt, hms'.fits⟩ heq
  exact hms'

/-- Nothing in front of an archive is one. -/
theorem not_accepted_prefix {ms : List Member} (hms : WellFormed ms) {start rest : List UInt8}
    (heq : start ++ rest = archiveBytes sha ms) (hrest : rest ≠ []) : ¬ Accepted sha R start := by
  intro h
  obtain ⟨ms', hms', rfl⟩ := accepted_iff.mp h
  exact hrest ((prefixFree_archive sha).eq_of_append_eq ⟨hms'.length_lt, hms'.fits⟩
    ⟨hms.length_lt, hms.fits⟩ heq).2

/-- Nothing that an archive is in front of is one. -/
theorem not_accepted_extension {ms : List Member} (hms : WellFormed ms) {rest : List UInt8}
    (hrest : rest ≠ []) : ¬ Accepted sha R (archiveBytes sha ms ++ rest) := by
  intro h
  obtain ⟨ms', hms', heq⟩ := accepted_iff.mp h
  exact hrest ((prefixFree_archive sha).eq_of_append_eq ⟨hms.length_lt, hms.fits⟩
    ⟨hms'.length_lt, hms'.fits⟩ heq).2

/-- A number of members that does not fit its field: what is written says less, and is not accepted. -/
theorem not_accepted_of_length {ms : List Member} (hlength : 2 ^ 32 ≤ ms.length)
    (hfits : ∀ m ∈ ms, m.Fits) : ¬ Accepted sha R (archiveBytes sha ms) := by
  intro h
  obtain ⟨ms', hms', heq⟩ := accepted_iff.mp h
  have hcount : (leBytes 4 ms.length).length = (leBytes 4 ms'.length).length := by
    rw [leBytes_length, leBytes_length]
  obtain ⟨-, hmembers⟩ := List.append_inj (List.append_cancel_left heq) hcount
  have hsame := (prefixFree_member sha).flatMap_inj (Member.encode_ne_nil sha) hfits hms'.fits hmembers
  have hlt := hms'.length_lt
  rw [← hsame] at hlt
  omega

/-! ## The consumers -/

/-- The callback of `extract_archive` stores a member under its name. -/
theorem run_extractCallback (target : Directory) {m : Member} (hvalid : validName m.name = true) :
    extractCallback.run target m = .ok (Function.update target m.name (some m.content)) := by
  have hwrite : ∀ (written : List (List UInt8)) (start : List UInt8) (target : Directory),
      written.foldlM (fun target piece => extractCallback.onData m.name piece m.name target)
        (Function.update target m.name (some start))
          = .ok (Function.update target m.name (some (start ++ written.flatten))) := by
    intro written
    induction written with
    | nil =>
        intro start target
        rw [List.flatten_nil, List.append_nil]
        rfl
    | cons piece written ih =>
        intro start target
        rw [List.foldlM_cons]
        refine bind_eq_ok_iff.mpr ⟨Function.update target m.name (some (start ++ piece)), ?_, ?_⟩
        · simp [extractCallback]
        · rw [ih, List.flatten_cons, List.append_assoc]
  have hpieces := hwrite (pieces m.content) [] target
  rw [flatten_pieces, List.nil_append] at hpieces
  refine bind_eq_ok_iff.mpr ⟨(m.name, Function.update target m.name (some [])), ?_,
    bind_eq_ok_iff.mpr ⟨_, hpieces, rfl⟩⟩
  exact bind_eq_ok_iff.mpr ⟨m.name, memberPath_ok_iff.mpr ⟨hvalid, rfl⟩, rfl⟩

/-- The callback of `read_member` takes the content of the member it wants. -/
theorem run_readCallback (wanted : Text) (result : Option (List UInt8)) (m : Member) :
    (readCallback wanted).run result m = .ok (if m.name = wanted then some m.content else result) := by
  by_cases hname : m.name = wanted
  · have hread : ∀ (given : List (List UInt8)) (start : List UInt8),
        given.foldlM (fun result piece => (readCallback wanted).onData m.name piece () result)
          (some start) = .ok (some (start ++ given.flatten)) := by
      intro given
      induction given with
      | nil =>
          intro start
          rw [List.flatten_nil, List.append_nil]
          rfl
      | cons piece given ih =>
          intro start
          rw [List.foldlM_cons]
          refine bind_eq_ok_iff.mpr ⟨some (start ++ piece), ?_, ?_⟩
          · simp [readCallback, hname]
          · rw [ih, List.flatten_cons, List.append_assoc]
    have hpieces := hread (pieces m.content) []
    rw [flatten_pieces, List.nil_append] at hpieces
    rw [if_pos hname]
    exact bind_eq_ok_iff.mpr ⟨((), some []), by simp [readCallback, hname],
      bind_eq_ok_iff.mpr ⟨some m.content, hpieces, rfl⟩⟩
  · have hpieces : (pieces m.content).foldlM
        (fun result piece => (readCallback wanted).onData m.name piece () result) result
          = .ok result := by
      rw [foldlM_eq_ok (g := fun result _ => result)]
      · simp
      · simp [readCallback, hname]
    rw [if_neg hname]
    exact bind_eq_ok_iff.mpr ⟨((), result), by simp [readCallback, hname],
      bind_eq_ok_iff.mpr ⟨result, hpieces, rfl⟩⟩

/-- The content that the last of the members with a name leaves. -/
def lastContent (wanted : Text) (ms : List Member) (result : Option (List UInt8)) :
    Option (List UInt8) :=
  ms.foldl (fun result m => if m.name = wanted then some m.content else result) result

theorem lastContent_of_not_mem {wanted : Text} {ms : List Member} (h : wanted ∉ ms.map Member.name)
    (result : Option (List UInt8)) : lastContent wanted ms result = result := by
  induction ms generalizing result with
  | nil => rfl
  | cons m ms ih =>
      rw [List.map_cons, List.mem_cons, not_or] at h
      rw [lastContent, List.foldl_cons, if_neg (Ne.symm h.1)]
      exact ih h.2 result

theorem lastContent_of_mem {ms : List Member} {m : Member} (hm : m ∈ ms)
    (hnodup : (ms.map Member.name).Nodup) (result : Option (List UInt8)) :
    lastContent m.name ms result = some m.content := by
  induction ms generalizing result with
  | nil => cases hm
  | cons m' ms ih =>
      obtain ⟨hname, hnodup⟩ := List.nodup_cons.mp hnodup
      rw [lastContent, List.foldl_cons]
      rcases List.mem_cons.mp hm with rfl | hm
      · rw [if_pos rfl]
        exact lastContent_of_not_mem hname _
      · exact ih hm hnodup _

/-- The directory behind `extract_archive`, name by name. -/
theorem foldl_update_apply (wanted : Text) (ms : List Member) (target : Directory) :
    ms.foldl (fun (target : Directory) m => Function.update target m.name (some m.content)) target wanted
      = lastContent wanted ms (target wanted) := by
  induction ms generalizing target with
  | nil => rfl
  | cons m ms ih =>
      rw [List.foldl_cons, ih, lastContent, lastContent, List.foldl_cons]
      by_cases hname : m.name = wanted
      · rw [← hname, Function.update_self, if_pos rfl]
      · rw [Function.update_of_ne (Ne.symm hname), if_neg hname]

/-- A name of the list has its file among the members. -/
theorem exists_stored (h : Storable directory members) {name : Text} (hname : name ∈ members) :
    ∃ content, directory name = some content ∧
      (⟨name, content⟩ : Member) ∈ storedMembers directory members := by
  obtain ⟨content, hfile, -⟩ := h.files name hname
  exact ⟨content, hfile, List.mem_map.mpr ⟨name, hname, by rw [hfile, Option.getD_some]⟩⟩

/-! ## The round trip -/

/-- No event makes it fail. -/
structure Callback.NeverFails {σ τ : Type} (callback : Callback σ τ) : Prop where
  onBegin : ∀ name size s, ∃ begun, callback.onBegin name size s = .ok begun
  onData : ∀ name data state s, ∃ s', callback.onData name data state s = .ok s'
  onEnd : ∀ name size state s, ∃ s', callback.onEnd name size state s = .ok s'

/-- What an archive of the files of a directory is for. -/
structure RoundTrips (sha : Sha256) (R : Reads) (directory : Directory) (members : List Text)
    (archive : List UInt8) : Prop where
  scans : ∀ {σ τ : Type} (callback : Callback σ τ) (s : σ), callback.NeverFails →
    ∃ s', scanArchive sha R callback s archive = .ok (members, s')
  extracts : ∀ target, ∃ target', extractArchive sha R archive target = .ok (members, target') ∧
    (∀ name ∈ members, target' name = directory name) ∧
    ∀ name, name ∉ members → target' name = target name
  verifies : verifyArchive sha R archive members = .ok ()
  reads : ∀ name ∈ members, ∃ content, directory name = some content ∧
    readMember sha R archive name = .ok content
  nothingShorter : ∀ start rest, start ++ rest = archive → rest ≠ [] → ¬ Accepted sha R start
  nothingLonger : ∀ rest, rest ≠ [] → ¬ Accepted sha R (archive ++ rest)

/-- What is accepted has valid names, none of them twice, and is an archive of the format. -/
structure NamesChecked (sha : Sha256) (R : Reads) : Prop where
  wellFormed : ∀ archive, Accepted sha R archive →
    ∃ ms, WellFormed ms ∧ archive = archiveBytes sha ms
  names : ∀ ms : List Member, ms.length < 2 ^ 32 → (∀ m ∈ ms, m.Fits) →
    Accepted sha R (archiveBytes sha ms) →
      (ms.map Member.name).Nodup ∧ ∀ m ∈ ms, validName m.name = true

theorem namesChecked (sha : Sha256) (R : Reads) : NamesChecked sha R where
  wellFormed _ h := accepted_iff.mp h
  names _ hlength hfits h :=
    have hms := wellFormed_of_accepted hlength hfits h
    ⟨hms.nodup, hms.valid⟩

theorem Callback.NeverFails.run {σ τ : Type} {callback : Callback σ τ} (h : callback.NeverFails)
    (m : Member) (s : σ) : ∃ s', callback.run s m = .ok s' := by
  obtain ⟨⟨state, s₁⟩, hbegin⟩ := h.onBegin m.name m.content.length s
  obtain ⟨s₂, hdata⟩ := exists_foldlM_ok (pieces m.content) s₁
    fun piece s => h.onData m.name piece state s
  obtain ⟨s₃, hend⟩ := h.onEnd m.name m.content.length state s₂
  exact ⟨s₃, bind_eq_ok_iff.mpr ⟨(state, s₁), hbegin, bind_eq_ok_iff.mpr ⟨s₂, hdata, hend⟩⟩⟩

theorem roundTrips_storedMembers (h : Storable directory members) (hcount : members.length < 2 ^ 32) :
    RoundTrips sha R directory members (archiveBytes sha (storedMembers directory members)) := by
  have hms := wellFormed_storedMembers h hcount
  have hscan : ∀ {σ τ : Type} {callback : Callback σ τ} {s s' : σ},
      (storedMembers directory members).foldlM callback.run s = .ok s' →
      scanArchive sha R callback s (archiveBytes sha (storedMembers directory members))
        = .ok (members, s') := by
    intro σ τ callback s s' hrun
    exact scanArchive_ok_iff.mpr ⟨_, hms, rfl, (map_name_storedMembers directory members).symm, hrun⟩
  have hlast : ∀ name ∈ members, ∀ result,
      lastContent name (storedMembers directory members) result = directory name := by
    intro name hname result
    obtain ⟨content, hfile, hstored⟩ := exists_stored h hname
    rw [hfile]
    exact lastContent_of_mem hstored hms.nodup result
  constructor
  case scans =>
    intro σ τ callback s hcallback
    obtain ⟨s', hrun⟩ := exists_foldlM_ok (storedMembers directory members) s hcallback.run
    exact ⟨s', hscan hrun⟩
  case extracts =>
    intro target
    refine ⟨_, hscan (foldlM_eq_ok fun m hm target => run_extractCallback target (hms.valid m hm)),
      ?_, ?_⟩
    · intro name hname
      rw [foldl_update_apply, hlast name hname]
    · intro name hname
      rw [foldl_update_apply]
      apply lastContent_of_not_mem
      rwa [map_name_storedMembers]
  case verifies =>
    refine bind_eq_ok_iff.mpr ⟨(members, ()), hscan (foldlM_ignoreCallback _), ?_⟩
    dsimp only
    rw [if_neg (not_not.mpr rfl)]
  case reads =>
    intro name hname
    obtain ⟨content, hfile, -⟩ := exists_stored h hname
    have hresult := hlast name hname none
    rw [hfile] at hresult
    refine ⟨content, hfile, bind_eq_ok_iff.mpr ⟨(members, some content), hscan ?_, rfl⟩⟩
    rw [← hresult]
    exact foldlM_eq_ok fun m _ result => run_readCallback name result m
  case nothingShorter =>
    intro start rest heq hrest
    exact not_accepted_prefix hms heq hrest
  case nothingLonger =>
    intro rest hrest
    exact not_accepted_extension hms hrest

/-- The archive that `write_archive` makes does what it is for, and `scan_archive` looks at the names. -/
def ArchiveSound (sha : Sha256) (W R : Reads) (directory : Directory) (members : List Text) : Prop :=
  (∃ archive, writeArchive sha W directory members = .ok archive ∧
    RoundTrips sha R directory members archive) ∧ NamesChecked sha R

/-- More files than their number has values: the archive is written, and nobody can read it. -/
theorem not_archiveSound_of_length (h : Storable directory members) (hcount : 2 ^ 32 ≤ members.length) :
    (∃ archive, writeArchive sha W directory members = .ok archive ∧ ¬ Accepted sha R archive) ∧
      ¬ ArchiveSound sha W R directory members := by
  have hlength : 2 ^ 32 ≤ (storedMembers directory members).length := by
    rwa [storedMembers, List.length_map]
  have hnot : ¬ Accepted sha R (archiveBytes sha (storedMembers directory members)) :=
    not_accepted_of_length hlength (fits_storedMembers h)
  refine ⟨⟨_, writeArchive_eq h, hnot⟩, ?_⟩
  rintro ⟨⟨archive, hwritten, htrip⟩, -⟩
  rw [writeArchive_eq h] at hwritten
  cases hwritten
  obtain ⟨⟨⟩, hscan⟩ := htrip.scans ignoreCallback ()
    ⟨fun _ _ s => ⟨((), s), rfl⟩, fun _ _ _ s => ⟨s, rfl⟩, fun _ _ _ s => ⟨s, rfl⟩⟩
  exact hnot ⟨Unit, Unit, ignoreCallback, (), (), members, hscan⟩

/-- **The round trip of an archive.** Files with valid and different names, whose sizes fit their fields, come
back from the archive of them, which nothing shorter or longer is mistaken for, exactly if there are less
than 2³² of them. -/
theorem archiveSound_iff (h : Storable directory members) :
    ArchiveSound sha W R directory members ↔ members.length < 2 ^ 32 := by
  constructor
  · intro hsound
    by_contra hcount
    exact (not_archiveSound_of_length h (Nat.le_of_not_lt hcount)).2 hsound
  · intro hcount
    exact ⟨⟨_, writeArchive_eq h, roundTrips_storedMembers h hcount⟩, namesChecked sha R⟩

/-! ### Instances -/

/-- Every `read` takes what there is. -/
def wholeReads : Reads where
  amount left size := min left size
  amount_le left size := Nat.min_le_right left size
  amount_pos left size hleft hsize := by
    rw [lt_min_iff]
    exact ⟨hleft, hsize⟩

/-- SHA-256 of the empty string and of `abc`. -/
def sampleSha : Sha256 where
  digest data :=
    (leBytes 32 (
      if data = [] then 0xE3B0C44298FC1C149AFBF4C8996FB92427AE41E4649B934CA495991B7852B855
      else if data = ascii "abc" then 0xBA7816BF8F01CFEA414140DE5DAE2223B00361A396177A9CB410FF61F20015AD
      else 0)).reverse
  length_digest data := by rw [List.length_reverse, leBytes_length]

/-- The number of a file as its name: as many names as the field of the number has values. -/
def manyNames : List Text := (List.range (2 ^ 32)).map (hex 8)

def emptyFiles : Directory := fun _ => some []

theorem validName_hex (n : Nat) (h : n < 16 ^ 8) : validName (hex 8 n) = true := by
  have halnum : ∀ b : UInt8, isHex b = true → isAlphanumeric b = true := by
    intro b hb
    simp only [isHex, isAlphanumeric, Bool.or_eq_true, Bool.and_eq_true, decide_eq_true_eq] at hb ⊢
    rcases hb with hdecimal | ⟨hlow, hhigh⟩
    · exact Or.inl (Or.inl hdecimal)
    · exact Or.inl (Or.inr ⟨hlow, by omega⟩)
  have hhex := isHex_hex 8 n
  have hlength := length_hex (by decide) h
  cases hname : hex 8 n with
  | nil => simp [hname] at hlength
  | cons b name =>
      rw [hname, List.all_cons, Bool.and_eq_true, List.all_eq_true] at hhex
      rw [validName, Bool.and_eq_true, List.all_eq_true]
      exact ⟨halnum b hhex.1, fun c hc => by simp [isNameByte, halnum c (hhex.2 c hc)]⟩

theorem storable_manyNames : Storable emptyFiles manyNames where
  nodup := by
    refine List.Nodup.map_on ?_ List.nodup_range
    intro n hn n' hn' heq
    rw [List.mem_range] at hn hn'
    rw [← hexOf_hex (k := 8) (by decide) hn, heq, hexOf_hex (by decide) hn']
  valid := by
    intro name hname
    obtain ⟨n, hn, rfl⟩ := List.mem_map.mp hname
    have hlt : n < 16 ^ 8 := List.mem_range.mp hn
    refine ⟨validName_hex n hlt, ?_⟩
    rw [length_hex (by decide) hlt]
    decide
  files _ _ := ⟨[], rfl, by decide⟩

theorem length_manyNames : manyNames.length = 2 ^ 32 := by
  rw [manyNames, List.length_map, List.length_range]

/-- As many empty files as the field of the number has values: the archive says that it has none. -/
theorem manyNames_not_archiveSound :
    Storable emptyFiles manyNames ∧
      ¬ ArchiveSound sampleSha wholeReads wholeReads emptyFiles manyNames :=
  ⟨storable_manyNames, (not_archiveSound_of_length storable_manyNames length_manyNames.ge).2⟩

def sampleDirectory : Directory := fun name =>
  if name = ascii "hardware-map.csv" then some (ascii "abc")
  else if name = ascii "expansion-family-00-map.csv" then some []
  else none

theorem archiveSound_iff_sample :
    ArchiveSound sampleSha wholeReads wholeReads sampleDirectory
      [ascii "hardware-map.csv", ascii "expansion-family-00-map.csv"] := by
  refine (archiveSound_iff ⟨by decide, by decide, ?_⟩).mpr (by decide)
  intro name hname
  rcases List.mem_pair.mp hname with rfl | rfl
  · exact ⟨ascii "abc", by decide, by decide⟩
  · exact ⟨[], by decide, by decide⟩

end Pmb887x.OpcodeProbe.DspMapArchive
