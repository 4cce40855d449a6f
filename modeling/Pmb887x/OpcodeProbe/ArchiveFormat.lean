import Pmb887x.Library.Checked
import Pmb887x.Library.PrefixCode
import Pmb887x.OpcodeProbe.Archive

set_option autoImplicit false

/-! # What an archive is

`archiveBytes` is the format of an archive as a function of its members, a prefix-free code. `scanArchive`
accepts exactly its values for valid names that are pairwise different, however the reads are cut, and its
callback is told of the members one after another. -/

namespace Pmb887x.OpcodeProbe.DspMapArchive

open Library

/-! ## The format -/

structure Member where
  name : Text
  content : List UInt8
  deriving DecidableEq

/-- The sizes fit their fields. -/
def Member.Fits (m : Member) : Prop := m.name.length < 2 ^ 16 ∧ m.content.length < 2 ^ 32

instance (m : Member) : Decidable m.Fits := inferInstanceAs (Decidable (_ ∧ _))

def Member.encode (sha : Sha256) (m : Member) : List UInt8 :=
  leBytes 2 m.name.length ++ (leBytes 4 m.content.length ++
    (sha.digest m.content ++ (m.name ++ m.content)))

def archiveBytes (sha : Sha256) (members : List Member) : List UInt8 :=
  magic ++ (leBytes 4 members.length ++ members.flatMap (Member.encode sha))

/-- What `scan_archive` accepts. -/
structure WellFormed (members : List Member) : Prop where
  length_lt : members.length < 2 ^ 32
  fits : ∀ m ∈ members, m.Fits
  valid : ∀ m ∈ members, validName m.name = true
  nodup : (members.map Member.name).Nodup

/-- A number that fits its field can be read off a string. -/
theorem prefixFree_leBytes (k : Nat) : PrefixFree (fun n => n < 256 ^ k) (leBytes k) := by
  apply prefixFree_of_length (leBytes_length k)
  intro n n' hn hn' heq
  rw [← ofLeBytes_leBytes_of_lt hn, heq, ofLeBytes_leBytes_of_lt hn']

theorem prefixFree_member (sha : Sha256) : PrefixFree Member.Fits (Member.encode sha) := by
  intro m m' hm hm' x y heq
  simp only [Member.encode, List.append_assoc] at heq
  obtain ⟨hname, heq⟩ := prefixFree_leBytes 2 hm.1 hm'.1 heq
  obtain ⟨hsize, heq⟩ := prefixFree_leBytes 4 hm.2 hm'.2 heq
  have hdigest : (sha.digest m.content).length = (sha.digest m'.content).length := by
    rw [sha.length_digest, sha.length_digest]
  obtain ⟨-, heq⟩ := List.append_inj heq hdigest
  obtain ⟨hnames, heq⟩ := List.append_inj heq hname
  obtain ⟨hcontents, hrest⟩ := List.append_inj heq hsize
  obtain ⟨name, content⟩ := m
  exact ⟨by rw [show name = m'.name from hnames, show content = m'.content from hcontents], hrest⟩

theorem Member.encode_ne_nil (sha : Sha256) (m : Member) : m.encode sha ≠ [] := by
  intro hnil
  have hlength := congrArg List.length hnil
  simp [Member.encode] at hlength

/-- **Archives are a prefix-free code**, also with names that are invalid or that repeat. -/
theorem prefixFree_archive (sha : Sha256) :
    PrefixFree (fun members : List Member => members.length < 2 ^ 32 ∧ ∀ m ∈ members, m.Fits)
      (archiveBytes sha) := by
  have hcounted := (prefixFree_leBytes 4).counted (prefixFree_member sha)
  intro members members' h h' x y heq
  simp only [archiveBytes, List.append_assoc, List.append_cancel_left_eq] at heq
  refine hcounted h h' ?_
  simp only [List.append_assoc]
  exact heq

/-! ## Reading -/

section Scan

variable {R : Reads} {σ τ : Type}

/-- The loop of `read_exact` divides what it has read and what is left after `size` bytes. -/
theorem readExactFrom_ok_iff {item : Item} {size : Nat} {data input : List UInt8}
    {hdata : data.length ≤ size} {read : Exact size} :
    readExactFrom R item size data hdata input = .ok read ↔
      data ++ input = read.data ++ read.rest := by
  fun_induction readExactFrom R item size data hdata input with
  | case1 data hdata input hmore chunk hread =>
      constructor
      · intro h
        cases h
      · intro h
        -- an empty chunk is the end of the file
        have hlength := congrArg List.length h
        rw [List.length_append, List.length_append, read.length_data] at hlength
        have hpos := R.amount_pos input.length (size - data.length) (by omega) (by omega)
        have hchunk := congrArg List.length hread
        simp only [chunk, Reads.read, List.length_take, List.length_nil] at hchunk
        omega
  | case2 data hdata input hmore chunk hread hlength hpos ih =>
      have hchunk : chunk ++ (R.read (size - data.length) input).2 = input :=
        List.take_append_drop _ _
      rw [ih, List.append_assoc, hchunk]
  | case3 data hdata input hmore =>
      constructor
      · intro h
        cases h
        rfl
      · intro h
        have hlength : data.length = read.data.length := by
          rw [read.length_data]
          omega
        obtain ⟨hd, hr⟩ := List.append_inj h hlength
        obtain ⟨data', rest', hdata'⟩ := read
        subst hd hr
        rfl

/-- However the reads are cut, `read_exact` takes the first `size` bytes. -/
theorem readExact_ok_iff {item : Item} {size : Nat} {input : List UInt8} {read : Exact size} :
    readExact R size item input = .ok read ↔ input = read.data ++ read.rest :=
  readExactFrom_ok_iff

/-- What follows a `read_exact`. -/
theorem readExact_bind_ok_iff {α : Type} {item : Item} {size : Nat} {input : List UInt8}
    {f : Exact size → Except ArchiveError α} {a : α} :
    readExact R size item input >>= f = .ok a ↔
      ∃ data rest, ∃ h : data.length = size, input = data ++ rest ∧ f ⟨data, rest, h⟩ = .ok a := by
  constructor
  · intro h
    obtain ⟨read, hread, hf⟩ := exists_of_bind_eq_ok h
    exact ⟨read.data, read.rest, read.length_data, readExact_ok_iff.mp hread, hf⟩
  · rintro ⟨data, rest, h, hinput, hf⟩
    have hread : readExact R size item input = .ok ⟨data, rest, h⟩ := readExact_ok_iff.mpr hinput
    rw [hread]
    exact hf

/-- The pieces of a content that the callback is given. -/
def pieces (data : List UInt8) : List (List UInt8) :=
  if _hdata : data = [] then [] else data.take 65536 :: pieces (data.drop 65536)
termination_by data.length
decreasing_by
  rw [List.length_drop]
  have hpos := List.length_pos_iff.mpr _hdata
  omega

@[simp] theorem pieces_nil : pieces [] = [] := by rw [pieces, dif_pos rfl]

/-- A piece in front is a full one unless it is the last. -/
theorem pieces_append {piece data : List UInt8} (hne : piece ≠ []) (hle : piece.length ≤ 65536)
    (hfull : data = [] ∨ piece.length = 65536) : pieces (piece ++ data) = piece :: pieces data := by
  have hcut : (piece ++ data).take 65536 = piece ∧ (piece ++ data).drop 65536 = data := by
    rcases hfull with rfl | hfull
    · rw [List.append_nil]
      exact ⟨List.take_of_length_le hle, List.drop_eq_nil_of_le hle⟩
    · exact ⟨List.take_left' hfull, List.drop_left' hfull⟩
  rw [pieces, dif_neg (List.append_ne_nil_of_left_ne_nil hne data), hcut.1, hcut.2]

theorem flatten_pieces (data : List UInt8) : (pieces data).flatten = data := by
  fun_induction pieces data with
  | case1 => rfl
  | case2 data hdata ih => rw [List.flatten_cons, ih, List.take_append_drop]

/-- What the callback is told of a member. -/
def Callback.run (callback : Callback σ τ) (s : σ) (m : Member) : Except ArchiveError σ := do
  let (state, s) ← callback.onBegin m.name m.content.length s
  let s ← (pieces m.content).foldlM (fun s piece => callback.onData m.name piece state s) s
  callback.onEnd m.name m.content.length state s

variable {callback : Callback σ τ}

/-- The loop over the data of a member takes `remaining` bytes and gives them to the digest and, in pieces,
to the callback. -/
theorem scanData_ok_iff {name : Text} {state : τ} {remaining : Nat} {added added' : List UInt8} {s s' : σ}
    {input rest : List UInt8} :
    scanData R callback name state remaining added s input = .ok (added', s', rest) ↔
      ∃ data, data.length = remaining ∧ input = data ++ rest ∧ added' = added ++ data ∧
        (pieces data).foldlM (fun s piece => callback.onData name piece state s) s = .ok s' := by
  induction remaining using Nat.strongRecOn generalizing added s input with
  | ind remaining ih =>
      rw [scanData]
      by_cases hzero : remaining = 0
      · subst hzero
        rw [if_pos rfl]
        constructor
        · intro h
          cases h
          exact ⟨[], rfl, rfl, (List.append_nil _).symm, by rw [pieces_nil]; rfl⟩
        · rintro ⟨data, hlength, rfl, rfl, hrun⟩
          obtain rfl := List.eq_nil_of_length_eq_zero hlength
          rw [pieces_nil] at hrun
          cases hrun
          rw [List.append_nil, List.nil_append]
      · rw [if_neg hzero]
        dsimp only
        obtain ⟨size, hsize, hpos, hle, hfull⟩ : ∃ size,
            (if remaining > 65536 then 65536 else remaining) = size ∧ 0 < size ∧ size ≤ 65536 ∧
              (size = remaining ∨ size = 65536 ∧ size < remaining) := by
          split_ifs with hlarge
          · exact ⟨65536, rfl, by decide, le_rfl, Or.inr ⟨rfl, hlarge⟩⟩
          · exact ⟨remaining, rfl, by omega, by omega, Or.inl rfl⟩
        rw [hsize, readExact_bind_ok_iff]
        constructor
        · rintro ⟨piece, rest₀, hpiece, rfl, h⟩
          obtain ⟨s₁, hs₁, h⟩ := exists_of_bind_eq_ok h
          obtain ⟨data, hlength, rfl, rfl, hrun⟩ := (ih (remaining - piece.length) (by omega)).mp h
          refine ⟨piece ++ data, ?_, (List.append_assoc _ _ _).symm, List.append_assoc _ _ _, ?_⟩
          · rw [List.length_append]
            omega
          · have hcut : data = [] ∨ piece.length = 65536 := by
              rcases hfull with hlast | hfull
              · exact Or.inl (List.eq_nil_of_length_eq_zero (by omega))
              · exact Or.inr (hpiece.trans hfull.1)
            rw [pieces_append (List.ne_nil_of_length_pos (by omega)) (by omega) hcut,
              List.foldlM_cons, hs₁]
            exact hrun
        · rintro ⟨data, hlength, rfl, rfl, hrun⟩
          have htake : (data.take size).length = size := List.length_take_of_le (by omega)
          have hcut : data.drop size = [] ∨ (data.take size).length = 65536 := by
            rcases hfull with hlast | hfull
            · exact Or.inl (List.drop_eq_nil_of_le (by omega))
            · exact Or.inr (htake.trans hfull.1)
          have hdata := List.take_append_drop size data
          rw [← hdata, pieces_append (List.ne_nil_of_length_pos (by omega)) (by omega) hcut,
            List.foldlM_cons] at hrun
          obtain ⟨s₁, hs₁, hrun⟩ := exists_of_bind_eq_ok hrun
          refine ⟨data.take size, data.drop size ++ rest, htake, ?_, ?_⟩
          · rw [← List.append_assoc, hdata]
          · have hlt : remaining - (data.take size).length < remaining := by omega
            have hrest : (data.drop size).length = remaining - (data.take size).length := by
              rw [List.length_drop, htake, hlength]
            refine bind_eq_ok_iff.mpr ⟨s₁, hs₁, (ih _ hlt).mpr ⟨_, hrest, rfl, ?_, hrun⟩⟩
            rw [List.append_assoc, hdata]

theorem memberPath_ok_iff {name path : Text} :
    memberPath name = .ok path ↔ validName name = true ∧ path = name := by
  unfold memberPath
  split_ifs with hvalid
  · simp [hvalid, eq_comm]
  · simp [hvalid]

variable {sha : Sha256} {index : Nat} {members : List Text} {s s' : σ} {input rest : List UInt8}

/-- What an iteration of the loop of `scan_archive` has taken is a member of the format. -/
theorem encode_of_scanMember {name : Text}
    (h : scanMember sha R callback index members s input = .ok (name, s', rest)) :
    ∃ m : Member, m.name = name ∧ m.Fits ∧ validName name = true ∧ name ∉ members ∧
      input = m.encode sha ++ rest ∧ callback.run s m = .ok s' := by
  rw [scanMember, readExact_bind_ok_iff] at h
  obtain ⟨header, rest₁, hheader, rfl, h⟩ := h
  obtain ⟨expectedHash, rest₂, hhash, rfl, h⟩ := readExact_bind_ok_iff.mp h
  obtain ⟨name', rest₃, hname, rfl, h⟩ := readExact_bind_ok_iff.mp h
  obtain ⟨path, hpath, h⟩ := exists_of_bind_eq_ok h
  dsimp only at h hname hpath
  split_ifs at h with hseen
  obtain ⟨⟨state, s₁⟩, hbegin, h⟩ := exists_of_bind_eq_ok h
  obtain ⟨⟨added, s₂, rest₄⟩, hdata, h⟩ := exists_of_bind_eq_ok h
  dsimp only at h hdata
  split_ifs at h with hdigest
  obtain ⟨s₃, hend, h⟩ := exists_of_bind_eq_ok h
  cases h
  obtain ⟨content, hcontent, rfl, hadded, hrun⟩ := scanData_ok_iff.mp hdata
  obtain rfl : added = content := hadded
  -- the two sizes are the header
  have htwo : (header.take 2).length = 2 := List.length_take_of_le (by omega)
  have hfour : (header.drop 2).length = 4 := by rw [List.length_drop, hheader]
  have hname2 : leBytes 2 name.length = header.take 2 := by rw [hname, leBytes_ofLeBytes htwo]
  have hsize4 : leBytes 4 added.length = header.drop 2 := by
    rw [hcontent, leBytes_ofLeBytes hfour]
  refine ⟨⟨name, added⟩, rfl, ⟨?_, ?_⟩, (memberPath_ok_iff.mp hpath).1, hseen, ?_, ?_⟩
  · calc name.length = ofLeBytes (header.take 2) := hname
      _ < 256 ^ (header.take 2).length := ofLeBytes_lt _
      _ = 2 ^ 16 := by rw [htwo]; norm_num
  · rw [hcontent]
    exact ofLeBytes_lt_two_pow hfour.le
  · simp only [Member.encode, hname2, hsize4, not_not.mp hdigest, List.append_assoc]
    rw [← List.append_assoc (header.take 2), List.take_append_drop]
  · rw [← hcontent] at hbegin hend
    exact bind_eq_ok_iff.mpr ⟨(state, s₁), hbegin, bind_eq_ok_iff.mpr ⟨s₂, hrun, hend⟩⟩

/-- An iteration of the loop of `scan_archive` takes a member of the format. -/
theorem scanMember_encode {m : Member} (hfits : m.Fits) (hvalid : validName m.name = true)
    (hnew : m.name ∉ members) (hrun : callback.run s m = .ok s') :
    scanMember sha R callback index members s (m.encode sha ++ rest) = .ok (m.name, s', rest) := by
  obtain ⟨⟨state, s₁⟩, hbegin, hrun⟩ := exists_of_bind_eq_ok hrun
  obtain ⟨s₂, hdata, hend⟩ := exists_of_bind_eq_ok hrun
  have hname : ofLeBytes ((leBytes 2 m.name.length ++ leBytes 4 m.content.length).take 2)
      = m.name.length := by
    rw [List.take_left' (leBytes_length 2 _), ofLeBytes_leBytes_of_lt hfits.1]
  have hsize : ofLeBytes ((leBytes 2 m.name.length ++ leBytes 4 m.content.length).drop 2)
      = m.content.length := by
    rw [List.drop_left' (leBytes_length 2 _), ofLeBytes_leBytes_of_lt hfits.2]
  refine readExact_bind_ok_iff.mpr
    ⟨leBytes 2 m.name.length ++ leBytes 4 m.content.length, _, by simp, ?_,
      readExact_bind_ok_iff.mpr ⟨sha.digest m.content, _, sha.length_digest _, rfl,
        readExact_bind_ok_iff.mpr ⟨m.name, m.content ++ rest, hname.symm, rfl, ?_⟩⟩⟩
  · simp [Member.encode]
  · refine bind_eq_ok_iff.mpr ⟨m.name, memberPath_ok_iff.mpr ⟨hvalid, rfl⟩, ?_⟩
    dsimp only
    rw [if_neg hnew, hsize]
    refine bind_eq_ok_iff.mpr ⟨(state, s₁), hbegin, bind_eq_ok_iff.mpr ⟨(m.content, s₂, rest), ?_, ?_⟩⟩
    · exact scanData_ok_iff.mpr ⟨m.content, rfl, rfl, rfl, hdata⟩
    · rw [if_neg (not_not.mpr rfl)]
      exact bind_eq_ok_iff.mpr ⟨s', hend, rfl⟩

/-- The loop of `scan_archive` takes `count` members with new names. -/
theorem scanMembers_ok_iff {count : Nat} {members' : List Text} :
    scanMembers sha R callback index count members s input = .ok (members', s', rest) ↔
      ∃ ms : List Member, ms.length = count ∧ (∀ m ∈ ms, m.Fits) ∧
        (∀ m ∈ ms, validName m.name = true) ∧ (ms.map Member.name).Nodup ∧
        (∀ m ∈ ms, m.name ∉ members) ∧ members' = members ++ ms.map Member.name ∧
        input = ms.flatMap (Member.encode sha) ++ rest ∧ ms.foldlM callback.run s = .ok s' := by
  induction count generalizing index members s input with
  | zero =>
      rw [scanMembers]
      constructor
      · intro h
        cases h
        exact ⟨[], by simp [pure, Except.pure]⟩
      · rintro ⟨ms, hlength, -, -, -, -, rfl, rfl, hrun⟩
        obtain rfl := List.eq_nil_of_length_eq_zero hlength
        cases hrun
        simp
  | succ count ih =>
      rw [scanMembers, bind_eq_ok_iff]
      constructor
      · rintro ⟨⟨name, s₁, rest₁⟩, hmember, h⟩
        obtain ⟨m, rfl, hfits, hvalid, hnew, rfl, hrun⟩ := encode_of_scanMember hmember
        obtain ⟨ms, hlength, hfits', hvalid', hnodup, hnew', rfl, rfl, hrun'⟩ := ih.mp h
        simp only [List.mem_append, List.mem_singleton, not_or] at hnew'
        refine ⟨m :: ms, by simp [hlength], List.forall_mem_cons.mpr ⟨hfits, hfits'⟩,
          List.forall_mem_cons.mpr ⟨hvalid, hvalid'⟩, ?_, ?_, by simp, by simp, ?_⟩
        · refine List.nodup_cons.mpr ⟨?_, hnodup⟩
          rw [List.mem_map]
          rintro ⟨m', hm', hname⟩
          exact (hnew' m' hm').2 hname
        · exact List.forall_mem_cons.mpr ⟨hnew, fun m' hm' => (hnew' m' hm').1⟩
        · rw [List.foldlM_cons]
          exact bind_eq_ok_iff.mpr ⟨s₁, hrun, hrun'⟩
      · rintro ⟨ms, hlength, hfits, hvalid, hnodup, hnew, rfl, rfl, hrun⟩
        cases ms with
        | nil => simp at hlength
        | cons m ms =>
            rw [List.foldlM_cons, bind_eq_ok_iff] at hrun
            obtain ⟨s₁, hrun, hrun'⟩ := hrun
            obtain ⟨hfits, hfits'⟩ := List.forall_mem_cons.mp hfits
            obtain ⟨hvalid, hvalid'⟩ := List.forall_mem_cons.mp hvalid
            obtain ⟨hnew, hnew'⟩ := List.forall_mem_cons.mp hnew
            obtain ⟨hname, hnodup⟩ := List.nodup_cons.mp hnodup
            refine ⟨(m.name, s₁, ms.flatMap (Member.encode sha) ++ rest), ?_, ih.mpr
              ⟨ms, by simpa using hlength, hfits', hvalid', hnodup, ?_, by simp, rfl, hrun'⟩⟩
            · rw [List.flatMap_cons, List.append_assoc]
              exact scanMember_encode hfits hvalid hnew hrun
            · intro m' hm' hmem
              rcases List.mem_append.mp hmem with hold | hsame
              · exact hnew' m' hm' hold
              · rw [← List.mem_singleton.mp hsame] at hname
                exact hname (List.mem_map_of_mem hm')

theorem read_one_eq_nil_iff : (R.read 1 input).1 = [] ↔ input = [] := by
  constructor
  · intro h
    by_contra hne
    have hpos := R.amount_pos input.length 1 (List.length_pos_iff.mpr hne) Nat.one_pos
    rcases List.take_eq_nil_iff.mp h with hzero | hnil
    · omega
    · exact hne hnil
  · rintro rfl
    exact List.take_nil

/-- **What `scan_archive` accepts** is the archive of members whose names are valid and pairwise different;
it returns their names, and its callback has been told of them in turn. -/
theorem scanArchive_ok_iff {archive : List UInt8} {members : List Text} :
    scanArchive sha R callback s archive = .ok (members, s') ↔
      ∃ ms, WellFormed ms ∧ archive = archiveBytes sha ms ∧ members = ms.map Member.name ∧
        ms.foldlM callback.run s = .ok s' := by
  rw [scanArchive, readExact_bind_ok_iff]
  constructor
  · rintro ⟨start, rest₁, hstart, rfl, h⟩
    dsimp only at h
    split_ifs at h with hmagic
    rw [readExact_bind_ok_iff] at h
    obtain ⟨count, rest₂, hcount, rfl, h⟩ := h
    obtain ⟨⟨members', s₁, rest₃⟩, hmembers, h⟩ := exists_of_bind_eq_ok h
    dsimp only at h hmembers
    split_ifs at h with htrailing
    cases h
    obtain rfl := read_one_eq_nil_iff.mp (not_not.mp htrailing)
    obtain ⟨ms, hlength, hfits, hvalid, hnodup, -, rfl, rfl, hrun⟩ := scanMembers_ok_iff.mp hmembers
    refine ⟨ms, ⟨?_, hfits, hvalid, hnodup⟩, ?_, rfl, hrun⟩
    · rw [hlength]
      exact ofLeBytes_lt_two_pow hcount.le
    · rw [archiveBytes, hlength, leBytes_ofLeBytes hcount, not_not.mp hmagic, List.append_nil]
  · rintro ⟨ms, hms, rfl, rfl, hrun⟩
    have hcount : ofLeBytes (leBytes 4 ms.length) = ms.length :=
      ofLeBytes_leBytes_of_lt hms.length_lt
    refine ⟨magic, _, rfl, rfl, ?_⟩
    dsimp only
    rw [if_neg (not_not.mpr rfl)]
    refine readExact_bind_ok_iff.mpr ⟨leBytes 4 ms.length, _, leBytes_length 4 _, rfl, ?_⟩
    refine bind_eq_ok_iff.mpr ⟨(ms.map Member.name, s', []), ?_, ?_⟩
    · exact scanMembers_ok_iff.mpr ⟨ms, hcount.symm, hms.fits, hms.valid, hms.nodup, by simp, by simp,
        by simp, hrun⟩
    · dsimp only
      rw [if_neg (not_not.mpr (read_one_eq_nil_iff.mpr rfl))]

end Scan

end Pmb887x.OpcodeProbe.DspMapArchive
