import Pmb887x.Dsp.Extract
import Pmb887x.Dsp.HwLoad
import Mathlib.Data.List.GetD

set_option autoImplicit false

/-! # The loaded memories and the extracted images

What the boot commands of a container leave in erased memories is what the extractor writes as its sparse
images, also where records overlap. -/

namespace Pmb887x.Dsp

open Library

/-! ## Replaying boot commands -/

/-- The program and the data memory of the DSP. -/
abbrev DspMemories := LoadSpace → Nat → UInt16

def erasedMemories : DspMemories := fun _ _ => 0xFFFF

/-- `values` from `destination` on. -/
def writeWords (memory : Nat → UInt16) (destination : Nat) (values : List UInt16) : Nat → UInt16 :=
  fun i => if destination ≤ i then values.getD (i - destination) (memory i) else memory i

def runBootCommand (memories : DspMemories) (c : BootCommand) : DspMemories :=
  match ContainerRecord.loadSpace? c.command.toNat with
  | some space =>
      Function.update memories space (writeWords (memories space) c.destination.toNat c.values)
  | none => memories

def replay (commands : List BootCommand) : DspMemories := commands.foldl runBootCommand erasedMemories

def LoadSpace.type : LoadSpace → RecordType
  | .program => .pload
  | .data => .dload

theorem LoadSpace.type_inj {space space' : LoadSpace} (h : space.type = space'.type) :
    space = space' := by
  cases space <;> cases space' <;> first | rfl | cases h

/-- The bytes of `count` words of a memory from `start` on. -/
def memoryBytes (memory : Nat → UInt16) (start count : Nat) : List UInt8 :=
  (List.range' start count).flatMap fun i => leBytes 2 (memory i).toNat

/-- A well-formed container that `dsp_hw_load` loads: the records fit the staging buffer, and the
handshakes succeed. -/
structure Loads (image : List UInt8) (executeBranch : Bool) (ready : Nat → Bool)
    (loads : List ContainerRecord) (branch : Nat) : Prop where
  valid : ∀ r ∈ loads, r.Valid ∧ r.isBranch = false
  branch_lt : branch < 2 ^ 16
  image_eq : image = containerFormat.encodeAll (loads ++ [.branch branch])
  small : ∀ r ∈ loads, r.payload.length / 2 ≤ hwBootTransferWords
  acknowledged : ∀ i < loads.length, ready i = true
  branched : executeBranch = true → ready loads.length = true

/-! ## The commands of a container -/

/-- The result is `true` for the loads that fit and are acknowledged, with a branch behind them. -/
theorem bootCommands_true_iff (executeBranch : Bool) (ready : Nat → Bool) (n : Nat)
    (loads : List ContainerRecord) (hloads : ∀ r ∈ loads, r.isBranch = false) (branch : Nat) :
    (bootCommands executeBranch ready n (loads ++ [.branch branch])).2 = true ↔
      (∀ r ∈ loads, r.payload.length / 2 ≤ hwBootTransferWords) ∧
      (∀ i < loads.length, ready (n + i) = true) ∧
      (executeBranch = true → ready (n + loads.length) = true) := by
  induction loads generalizing n with
  | nil =>
      rw [List.nil_append, bootCommands]
      cases executeBranch with
      | true => simp
      | false => simp
  | cons r loads ih =>
      obtain ⟨hr, hmore⟩ := List.forall_mem_cons.mp hloads
      cases r with
      | branch destination => cases hr
      | load space destination payload =>
          rw [List.cons_append, bootCommands, List.forall_mem_cons, List.length_cons]
          change _ ↔ (payload.length / 2 ≤ hwBootTransferWords ∧ _) ∧ _
          by_cases hsmall : payload.length / 2 > hwBootTransferWords
          · rw [if_pos hsmall]
            refine ⟨fun h => (by cases h), fun h => absurd h.1.1 (Nat.not_le_of_lt hsmall)⟩
          · rw [if_neg hsmall]
            by_cases hready : ready n = true
            · rw [if_pos hready, ih (n + 1) hmore]
              have hshift : ∀ i, n + 1 + i = n + (i + 1) := fun i => by omega
              simp only [hshift]
              constructor
              · rintro ⟨hfit, hrest, hbranch⟩
                refine ⟨⟨Nat.le_of_not_lt hsmall, hfit⟩, fun i hi => ?_, hbranch⟩
                cases i with
                | zero => exact hready
                | succ i => exact hrest i (by omega)
              · rintro ⟨⟨-, hfit⟩, hrest, hbranch⟩
                exact ⟨hfit, fun i hi => hrest (i + 1) (by omega), hbranch⟩
            · rw [if_neg hready]
              exact ⟨fun h => (by cases h), fun h => absurd (h.2.1 0 (Nat.succ_pos _)) hready⟩

/-- The commands are those of the first records. -/
theorem bootCommands_first (executeBranch : Bool) (ready : Nat → Bool) (n : Nat)
    (records : List ContainerRecord) :
    (bootCommands executeBranch ready n records).1 <+: records.map ContainerRecord.bootCommand := by
  induction records generalizing n with
  | nil => exact List.prefix_rfl
  | cons r records ih =>
      cases r with
      | branch destination =>
          rw [bootCommands]
          split_ifs
          · exact ⟨_, rfl⟩
          · exact List.nil_prefix
      | load space destination payload =>
          rw [bootCommands]
          split_ifs
          · exact List.nil_prefix
          · exact List.cons_prefix_cons.mpr ⟨rfl, ih (n + 1)⟩
          · exact ⟨_, rfl⟩

/-- A load that succeeds issues all commands. -/
theorem bootCommands_all {executeBranch : Bool} {ready : Nat → Bool} {n branch : Nat}
    {loads : List ContainerRecord} (hloads : ∀ r ∈ loads, r.isBranch = false)
    (h : (bootCommands executeBranch ready n (loads ++ [.branch branch])).2 = true) :
    (bootCommands executeBranch ready n (loads ++ [.branch branch])).1
      = loads.map ContainerRecord.bootCommand ++
        if executeBranch then [(ContainerRecord.branch branch).bootCommand] else [] := by
  induction loads generalizing n with
  | nil =>
      rw [List.nil_append, bootCommands]
      cases executeBranch with
      | true => rfl
      | false => rfl
  | cons r loads ih =>
      obtain ⟨hr, hmore⟩ := List.forall_mem_cons.mp hloads
      cases r with
      | branch destination => cases hr
      | load space destination payload =>
          rw [List.cons_append, bootCommands] at h ⊢
          split_ifs at h ⊢ with hlong hready hexecute
          · have hrest := ih hmore h
            rw [if_pos hexecute] at hrest
            exact congrArg (List.cons _) hrest
          · have hrest := ih hmore h
            rw [if_neg hexecute] at hrest
            exact congrArg (List.cons _) hrest

/-! ## The sparse images -/

theorem length_memoryBytes (memory : Nat → UInt16) (start count : Nat) :
    (memoryBytes memory start count).length = 2 * count := by
  rw [memoryBytes, List.length_flatMap]
  simp [leBytes_length, Nat.mul_comm]

theorem memoryBytes_append (memory : Nat → UInt16) (start count count' : Nat) :
    memoryBytes memory start count ++ memoryBytes memory (start + count) count'
      = memoryBytes memory start (count + count') := by
  rw [memoryBytes, memoryBytes, memoryBytes, ← List.flatMap_append, List.range'_append_1]

theorem memoryBytes_congr {memory memory' : Nat → UInt16} {start count : Nat}
    (h : ∀ i, start ≤ i → i < start + count → memory i = memory' i) :
    memoryBytes memory start count = memoryBytes memory' start count := by
  refine List.flatMap_congr fun i hi => ?_
  obtain ⟨hlow, hhigh⟩ := List.mem_range'_1.mp hi
  rw [h i hlow hhigh]

/-- An erased memory reads as `0xFF` bytes. -/
theorem memoryBytes_erased (space : LoadSpace) (start count : Nat) :
    memoryBytes (erasedMemories space) start count = List.replicate (count * 2) 0xFF := by
  induction count generalizing start with
  | zero => rfl
  | succ count ih =>
      have hword : leBytes 2 (erasedMemories space start).toNat = List.replicate 2 0xFF := by
        rw [erasedMemories]
        decide
      rw [memoryBytes, List.range'_succ, List.flatMap_cons, ← memoryBytes, ih, Nat.succ_mul,
        Nat.add_comm, List.replicate_add, hword]

/-- Written words read as the bytes of their payload. -/
theorem memoryBytes_written {memory : Nat → UInt16} {payload : List UInt8} {words : Nat}
    (hlength : payload.length = 2 * words) (destination : Nat) :
    memoryBytes (writeWords memory destination (wordsOf payload)) destination words = payload := by
  induction words generalizing payload memory destination with
  | zero => exact (List.length_eq_zero_iff.mp hlength).symm
  | succ words ih =>
      obtain _ | ⟨b₀, _ | ⟨b₁, rest⟩⟩ := payload
      · simp at hlength
      · simp at hlength
        omega
      · have hrest : rest.length = 2 * words := by
          simp only [List.length_cons] at hlength
          omega
        have hvalue : (UInt16.ofNat (ofLeBytes [b₀, b₁])).toNat = ofLeBytes [b₀, b₁] :=
          UInt16.toNat_ofNat_of_lt' (ofLeBytes_two_lt b₀ b₁)
        have hfirst : writeWords memory destination (wordsOf (b₀ :: b₁ :: rest)) destination
            = UInt16.ofNat (ofLeBytes [b₀, b₁]) := by
          rw [writeWords, if_pos (Nat.le_refl _), Nat.sub_self]
          rfl
        have hnext : memoryBytes (writeWords memory destination (wordsOf (b₀ :: b₁ :: rest)))
            (destination + 1) words = rest := by
          refine (memoryBytes_congr fun i hlow hhigh => ?_).trans
            (@ih memory rest hrest (destination + 1))
          rw [writeWords, writeWords, if_pos (by omega), if_pos hlow, wordsOf,
            show i - destination = i - (destination + 1) + 1 by omega, List.getD_cons_succ]
        rw [memoryBytes, List.range'_succ, List.flatMap_cons, ← memoryBytes, hnext, hfirst, hvalue,
          leBytes_ofLeBytes_two]
        rfl

/-- `substr` with a replacement writes the words. -/
theorem memoryBytes_replace {memory : Nat → UInt16} {payload : List UInt8} {destination words total : Nat}
    (hlength : payload.length = 2 * words) (hfits : destination + words ≤ total) :
    (memoryBytes memory 0 total).take (destination * 2) ++ payload ++
        (memoryBytes memory 0 total).drop (destination * 2 + words * 2)
      = memoryBytes (writeWords memory destination (wordsOf payload)) 0 total := by
  obtain ⟨rest, rfl⟩ := Nat.exists_eq_add_of_le hfits
  have hsplit : ∀ memory : Nat → UInt16, memoryBytes memory 0 (destination + words + rest)
      = memoryBytes memory 0 destination ++ (memoryBytes memory destination words ++
          memoryBytes memory (destination + words) rest) := by
    intro memory
    rw [← memoryBytes_append, ← memoryBytes_append, List.append_assoc, Nat.zero_add, Nat.zero_add]
  have hlow : memoryBytes (writeWords memory destination (wordsOf payload)) 0 destination
      = memoryBytes memory 0 destination := by
    refine memoryBytes_congr fun i _ hi => ?_
    rw [writeWords, if_neg (by omega)]
  have hhigh : memoryBytes (writeWords memory destination (wordsOf payload)) (destination + words) rest
      = memoryBytes memory (destination + words) rest := by
    refine memoryBytes_congr fun i hi _ => ?_
    rw [writeWords, if_pos (by omega), List.getD_eq_default _ _ (by rw [length_wordsOf hlength]; omega)]
  have hstart : (memoryBytes memory 0 destination).length = destination * 2 := by
    rw [length_memoryBytes, Nat.mul_comm]
  have hmiddle : (memoryBytes memory destination words).length = words * 2 := by
    rw [length_memoryBytes, Nat.mul_comm]
  rw [hsplit, hsplit, hlow, hhigh, memoryBytes_written hlength, ← hstart, List.take_left,
    ← List.drop_drop, List.drop_left, ← hmiddle, List.drop_left, List.append_assoc]

theorem runBootCommand_load {space : LoadSpace} {destination : Nat} (payload : List UInt8)
    (h : destination < 2 ^ 16) (memories : DspMemories) :
    runBootCommand memories (ContainerRecord.load space destination payload).bootCommand
      = Function.update memories space
          (writeWords (memories space) destination (wordsOf payload)) := by
  have hspace : ContainerRecord.loadSpace? (UInt16.ofNat space.command).toNat = some space := by
    cases space <;> rfl
  have hdestination : (UInt16.ofNat destination).toNat = destination := UInt16.toNat_ofNat_of_lt' h
  simp only [runBootCommand, ContainerRecord.bootCommand, hspace, hdestination]

theorem runBootCommand_branch (destination : Nat) (memories : DspMemories) :
    runBootCommand memories (ContainerRecord.branch destination).bootCommand = memories := rfl

/-- The words an image of `records` must have room for. -/
theorem le_imageWords (records : List ExtractedRecord) (type : RecordType) {e : ExtractedRecord}
    (he : e ∈ records) (htype : e.type = type) :
    e.destination + e.length ≤ imageWords records type := by
  have hfold : ∀ start, start ≤ records.foldl (fun words record =>
        if record.type ≠ type then words
        else if record.destination + record.length > words then record.destination + record.length
        else words) start ∧
      ∀ e ∈ records, e.type = type → e.destination + e.length ≤ records.foldl (fun words record =>
        if record.type ≠ type then words
        else if record.destination + record.length > words then record.destination + record.length
        else words) start := by
    clear he
    induction records with
    | nil => exact fun start => ⟨Nat.le_refl _, fun e he => absurd he List.not_mem_nil⟩
    | cons r records ih =>
        intro start
        rw [List.foldl_cons]
        obtain ⟨hstart, hall⟩ := ih (if r.type ≠ type then start
          else if r.destination + r.length > start then r.destination + r.length else start)
        refine ⟨le_trans ?_ hstart, fun e he htype => ?_⟩
        · split_ifs
          · exact Nat.le_refl _
          · exact Nat.le_of_lt ‹_›
          · exact Nat.le_refl _
        · rcases List.mem_cons.mp he with rfl | he
          · refine le_trans ?_ hstart
            rw [if_neg (not_not.mpr htype)]
            split_ifs
            · exact Nat.le_refl _
            · exact Nat.le_of_not_lt ‹_›
          · exact hall e he htype
  exact (hfold 0).2 e he htype

theorem ContainerRecord.load_type (space : LoadSpace) (destination : Nat) (payload : List UInt8) :
    (ContainerRecord.load space destination payload).type = space.type := by
  cases space <;> rfl

/-- **Building an image is replaying the commands**, from any memories on. -/
theorem buildSparseImage_fold (space : LoadSpace) (total : Nat) (rs : List ContainerRecord)
    (hvalid : ∀ r ∈ rs, r.Valid)
    (htotal : ∀ r ∈ rs, r.type = space.type → r.destination + r.payload.length / 2 ≤ total)
    (index cursor : Nat) (memories : DspMemories) :
    (extractedAt index cursor rs).foldl (fun image record =>
        if record.type ≠ space.type then image
        else
          image.take (record.destination * 2) ++ record.payload ++
            image.drop (record.destination * 2 + record.length * 2))
        (memoryBytes (memories space) 0 total)
      = memoryBytes ((rs.map ContainerRecord.bootCommand).foldl runBootCommand memories space) 0 total ∧
    ∀ i, total ≤ i → (rs.map ContainerRecord.bootCommand).foldl runBootCommand memories space i
      = memories space i := by
  induction rs generalizing index cursor memories with
  | nil => exact ⟨rfl, fun i _ => rfl⟩
  | cons r rs ih =>
      obtain ⟨hr, hrs⟩ := List.forall_mem_cons.mp hvalid
      obtain ⟨hfits, hmore⟩ := List.forall_mem_cons.mp htotal
      rw [extractedAt, List.foldl_cons, List.map_cons, List.foldl_cons]
      cases r with
      | branch destination =>
          have hother : ((ContainerRecord.branch destination).extracted index cursor).type
              ≠ space.type := by
            cases space with
            | program => exact fun h => by cases h
            | data => exact fun h => by cases h
          rw [if_pos hother, runBootCommand_branch]
          exact ih hrs hmore _ _ _
      | load space' destination payload =>
          obtain ⟨hdestination, words, -, hlength, -⟩ := hr
          have hhalf : payload.length / 2 = words := by
            rw [hlength, Nat.mul_div_cancel_left _ (Nat.succ_pos 1)]
          have hnext := ih hrs hmore (index + 1)
            (cursor + (ContainerRecord.load space' destination payload).encode.length)
            (Function.update memories space'
              (writeWords (memories space') destination (wordsOf payload)))
          rw [runBootCommand_load payload hdestination]
          by_cases hsame : space' = space
          · subst hsame
            rw [Function.update_self] at hnext
            have hroom := hfits (ContainerRecord.load_type _ _ _)
            change destination + payload.length / 2 ≤ total at hroom
            rw [hhalf] at hroom
            have htype : ¬ ((ContainerRecord.load space' destination payload).extracted index cursor).type
                ≠ space'.type := not_not.mpr (ContainerRecord.load_type _ _ _)
            rw [if_neg htype]
            change List.foldl _ (_ ++ payload ++
              List.drop (destination * 2 + payload.length / 2 * 2) _) _ = _ ∧ _
            rw [hhalf]
            refine ⟨?_, fun i hi => ?_⟩
            · rw [← hnext.1, ← memoryBytes_replace hlength hroom]
              rfl
            · rw [hnext.2 i hi, writeWords, if_pos (by omega),
                List.getD_eq_default _ _ (by rw [length_wordsOf hlength]; omega)]
          · rw [Function.update_of_ne (Ne.symm hsame)] at hnext
            have htype : ((ContainerRecord.load space' destination payload).extracted index cursor).type
                ≠ space.type := by
              change (ContainerRecord.load space' destination payload).type ≠ space.type
              rw [ContainerRecord.load_type]
              exact fun h => hsame (LoadSpace.type_inj h)
            rw [if_pos htype]
            exact hnext

/-! ## The loaded memories -/

/-- The images of a container hold the memories; behind them the memories are erased. -/
def ShowsImages (records : List ExtractedRecord) (memories : DspMemories) : Prop :=
  ∀ space : LoadSpace,
    buildSparseImage records space.type
      = memoryBytes (memories space) 0 (imageWords records space.type) ∧
    ∀ i, imageWords records space.type ≤ i → memories space i = 0xFFFF

theorem mem_extractedAt {r : ContainerRecord} {rs : List ContainerRecord} (h : r ∈ rs)
    (index cursor : Nat) :
    ∃ index' cursor', r.extracted index' cursor' ∈ extractedAt index cursor rs := by
  induction rs generalizing index cursor with
  | nil => exact absurd h List.not_mem_nil
  | cons r' rs ih =>
      rcases List.mem_cons.mp h with rfl | hmem
      · exact ⟨index, cursor, List.mem_cons_self⟩
      · obtain ⟨index', cursor', hfound⟩ := ih hmem (index + 1) (cursor + r'.encode.length)
        exact ⟨index', cursor', List.mem_cons_of_mem _ hfound⟩

/-- Valid records replayed on erased memories give their images. -/
theorem showsImages_replay {rs : List ContainerRecord} (hvalid : ∀ r ∈ rs, r.Valid)
    (index cursor : Nat) :
    ShowsImages (extractedAt index cursor rs) (replay (rs.map ContainerRecord.bootCommand)) := by
  intro space
  have htotal : ∀ r ∈ rs, r.type = space.type → r.destination + r.payload.length / 2
      ≤ imageWords (extractedAt index cursor rs) space.type := by
    intro r hr htype
    obtain ⟨index', cursor', hmem⟩ := mem_extractedAt hr index cursor
    exact le_imageWords _ _ hmem htype
  obtain ⟨himage, hbehind⟩ := buildSparseImage_fold space _ rs hvalid htotal index cursor erasedMemories
  refine ⟨?_, fun i hi => hbehind i hi⟩
  rw [memoryBytes_erased] at himage
  exact himage

/-- A branch loads nothing. -/
theorem replay_loads (loads : List ContainerRecord) (branch : Nat) (executeBranch : Bool) :
    replay (loads.map ContainerRecord.bootCommand ++
        if executeBranch then [(ContainerRecord.branch branch).bootCommand] else [])
      = replay ((loads ++ [ContainerRecord.branch branch]).map ContainerRecord.bootCommand) := by
  rw [List.map_append, replay, replay, List.foldl_append, List.foldl_append]
  cases executeBranch with
  | true => rfl
  | false => rfl

theorem encodeAll_branch (loads : List ContainerRecord) (branch : Nat) :
    containerFormat.encodeAll (loads ++ [ContainerRecord.branch branch])
      = containerFormat.encodeAll loads ++ containerFormat.encode (ContainerRecord.branch branch) := by
  rw [containerFormat.encodeAll_append]
  exact congrArg _ (List.append_nil _)

/-- The records of a container are read back. -/
theorem decodeAll_branch {loads : List ContainerRecord} {branch : Nat}
    (hvalid : ∀ r ∈ loads, r.Valid ∧ r.isBranch = false) (hbranch : branch < 2 ^ 16) :
    (containerFormat.decodeAll (containerFormat.encodeAll (loads ++ [.branch branch]))).1
      = loads ++ [.branch branch] := by
  have hlast : containerFormat.valid (.branch branch) := hbranch
  rw [encodeAll_branch, containerFormat.decodeAll_stream hvalid hlast rfl]

namespace Loads

variable {image : List UInt8} {executeBranch : Bool} {ready : Nat → Bool}
  {loads : List ContainerRecord} {branch : Nat}

theorem decodeAll_eq (h : Loads image executeBranch ready loads branch) :
    (containerFormat.decodeAll image).1 = loads ++ [.branch branch] := by
  rw [h.image_eq, decodeAll_branch h.valid h.branch_lt]

theorem all_valid (h : Loads image executeBranch ready loads branch) :
    ∀ r ∈ loads ++ [.branch branch], r.Valid := by
  intro r hr
  rcases List.mem_append.mp hr with hload | hlast
  · exact (h.valid r hload).1
  · obtain rfl := List.mem_singleton.mp hlast
    exact h.branch_lt

/-- A container that loads is loaded. -/
theorem bootCommands_eq (h : Loads image executeBranch ready loads branch) :
    (bootCommands executeBranch ready 0 (containerFormat.decodeAll image).1).2 = true ∧
    (bootCommands executeBranch ready 0 (containerFormat.decodeAll image).1).1
      = loads.map ContainerRecord.bootCommand ++
        if executeBranch then [(ContainerRecord.branch branch).bootCommand] else [] := by
  have hloads : ∀ r ∈ loads, r.isBranch = false := fun r hr => (h.valid r hr).2
  have htrue : (bootCommands executeBranch ready 0 (loads ++ [.branch branch])).2 = true := by
    rw [bootCommands_true_iff executeBranch ready 0 loads hloads branch]
    refine ⟨h.small, fun i hi => ?_, fun hexecute => ?_⟩
    · rw [Nat.zero_add]
      exact h.acknowledged i hi
    · rw [Nat.zero_add]
      exact h.branched hexecute
  rw [h.decodeAll_eq]
  exact ⟨htrue, bootCommands_all hloads htrue⟩

end Loads

/-- A load succeeds at a branch, which a container has at its end. -/
theorem isStream_of_bootCommands {executeBranch : Bool} {ready : Nat → Bool} {image : List UInt8}
    {n : Nat} (h : (bootCommands executeBranch ready n (containerFormat.decodeAll image).1).2 = true) :
    containerFormat.IsStream image := by
  rw [← containerFormat.decodeAll_final_iff]
  induction image using containerFormat.decodeAll_induct generalizing n with
  | hnone image hdecode =>
      rw [containerFormat.decodeAll_none hdecode] at h
      cases h
  | hfinal image r rest hdecode hr =>
      rw [containerFormat.decodeAll_final hdecode hr]
      exact ⟨r, rfl, hr⟩
  | hcons image r rest hdecode hr ih =>
      rw [containerFormat.decodeAll_cons hdecode hr] at h ⊢
      cases r with
      | branch destination => cases hr
      | load space destination payload =>
          rw [bootCommands] at h
          split_ifs at h
          obtain ⟨last, hlast, hfinal⟩ := ih h
          exact ⟨last, by rw [List.getLast?_cons, hlast, Option.getD_some], hfinal⟩

/-- Only a container that loads is loaded. -/
theorem exists_loads_of_bootCommands {image : List UInt8} {executeBranch : Bool} {ready : Nat → Bool}
    (h : (bootCommands executeBranch ready 0 (containerFormat.decodeAll image).1).2 = true) :
    ∃ loads branch, Loads image executeBranch ready loads branch := by
  obtain ⟨loads, r, hvalid, hr, hfinal, himage⟩ := isStream_of_bootCommands h
  cases r with
  | load space destination payload => cases hfinal
  | branch branch =>
      have hloads : ∀ r ∈ loads, r.isBranch = false := fun r hr => (hvalid r hr).2
      rw [himage, containerFormat.decodeAll_stream hvalid hr hfinal] at h
      obtain ⟨hsmall, hready, hbranch⟩ :=
        (bootCommands_true_iff executeBranch ready 0 loads hloads branch).mp h
      refine ⟨loads, branch, hvalid, hr, ?_, hsmall, fun i hi => ?_, fun hexecute => ?_⟩
      · rw [himage, encodeAll_branch]
      · rw [← Nat.zero_add i]
        exact hready i hi
      · rw [← Nat.zero_add loads.length]
        exact hbranch hexecute

/-- **Loading a container.** For any bytes and any outcome of the handshakes `dsp_hw_load` ends. It returns
`true` just for a well-formed container whose records fit the transfer buffer and whose handshakes
succeed. The commands it issues are those of the first records in file order, all of them when it
succeeds, and replayed on erased memories they give the sparse images of the container. -/
theorem dspHwLoad_replays (image : List UInt8) (executeBranch : Bool) (ready : Nat → Bool)
    (stack shared : Nat → UInt16) :
    ∃ result pipe, dspHwLoad image executeBranch ready stack ⟨shared, []⟩ = .ok (some (result, pipe)) ∧
      (result = true ↔ ∃ loads branch, Loads image executeBranch ready loads branch) ∧
      pipe.issued <+: (containerFormat.decodeAll image).1.map ContainerRecord.bootCommand ∧
      ∀ loads branch, Loads image executeBranch ready loads branch →
        pipe.issued = (loads.map ContainerRecord.bootCommand ++
          if executeBranch then [(ContainerRecord.branch branch).bootCommand] else []) ∧
        (∀ index cursor, ShowsImages (extractedAt index cursor (loads ++ [.branch branch]))
          (replay pipe.issued)) ∧
        ∀ file base address out, extractContainer file base address = .ok out → out.container = image →
          out.pram = buildSparseImage out.records .pload ∧
          out.dram = buildSparseImage out.records .dload ∧
          ShowsImages out.records (replay pipe.issued) := by
  obtain ⟨shared', hload⟩ := dspHwLoad_eq image executeBranch ready stack shared
  refine ⟨_, _, hload, ⟨exists_loads_of_bootCommands, ?_⟩, bootCommands_first executeBranch ready 0 _, ?_⟩
  · rintro ⟨loads, branch, h⟩
    exact h.bootCommands_eq.1
  · intro loads branch h
    have hissued := h.bootCommands_eq.2
    have hshows : ∀ index cursor, ShowsImages (extractedAt index cursor (loads ++ [.branch branch]))
        (replay (bootCommands executeBranch ready 0 (containerFormat.decodeAll image).1).1) := by
      intro index cursor
      rw [hissued, replay_loads]
      exact showsImages_replay h.all_valid index cursor
    refine ⟨hissued, hshows, fun file base address out hout hcontainer => ?_⟩
    obtain ⟨offset, loads', -, hvalid', hbranch', hrecords, hencoded, -, -⟩ := extractContainer_ok hout
    have hsame : loads' ++ [.branch out.branch] = loads ++ [.branch branch] := by
      rw [← h.decodeAll_eq, ← hcontainer, hencoded, decodeAll_branch hvalid' hbranch']
    obtain ⟨parsed, -, hmade⟩ := exists_of_bind_eq_ok hout
    obtain rfl := Except.ok.inj hmade
    exact ⟨rfl, rfl, by rw [hrecords, hsame]; exact hshows 0 offset⟩

/-- The second record lies in the first. -/
def overlappingLoads : List ContainerRecord :=
  [.load .program 0 [0x11, 0x11, 0x22, 0x22, 0x33, 0x33], .load .program 1 [0xAA, 0xAA], .load .data 2 [0x44, 0x44]]

def overlappingImage : List UInt8 := containerFormat.encodeAll (overlappingLoads ++ [.branch 0x100])

theorem loads_overlapping : Loads overlappingImage true (fun _ => true) overlappingLoads 0x100 where
  valid := by
    refine List.forall_mem_cons.mpr ⟨⟨⟨by decide, 3, by decide, rfl, by decide⟩, rfl⟩, ?_⟩
    refine List.forall_mem_cons.mpr ⟨⟨⟨by decide, 1, by decide, rfl, by decide⟩, rfl⟩, ?_⟩
    exact List.forall_mem_singleton.mpr ⟨⟨by decide, 1, by decide, rfl, by decide⟩, rfl⟩
  branch_lt := by decide
  image_eq := rfl
  small := by decide
  acknowledged _ _ := rfl
  branched _ := rfl

/-- The word of the second record is in the memory and in the image. -/
theorem dspHwLoad_replays_overlapping : ∃ pipe,
    dspHwLoad overlappingImage true (fun _ => true) (fun _ => 0) ⟨fun _ => 0, []⟩ = .ok (some (true, pipe)) ∧
      pipe.issued.length = 4 ∧
      memoryBytes (replay pipe.issued .program) 0 3 = [0x11, 0x11, 0xAA, 0xAA, 0x33, 0x33] ∧
      memoryBytes (replay pipe.issued .data) 0 3 = [0xFF, 0xFF, 0xFF, 0xFF, 0x44, 0x44] := by
  obtain ⟨result, pipe, hload, hresult, -, hreplay⟩ :=
    dspHwLoad_replays overlappingImage true (fun _ => true) (fun _ => 0) (fun _ => 0)
  obtain rfl : result = true := hresult.mpr ⟨_, _, loads_overlapping⟩
  obtain ⟨hissued, hshows, -⟩ := hreplay _ _ loads_overlapping
  have hprogram := (hshows 0 0 .program).1
  have hdata := (hshows 0 0 .data).1
  refine ⟨pipe, hload, hissued ▸ rfl, hprogram.symm.trans ?_, hdata.symm.trans ?_⟩
  · decide
  · decide

end Pmb887x.Dsp
