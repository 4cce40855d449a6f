import Pmb887x.Library.Bytes
import Pmb887x.Library.Lz77

set_option autoImplicit false

/-! # A byte-oriented LZSS format

A token is a control byte and what it announces: below `0x80` a run of 1 to 128 literals, from `0x80`
on a copy of 3 to 130 bytes with a 16-bit distance. A text may be packed as a series of blocks, each
of whole tokens, that share one history (`Packed`). `loop_tokens` is the correctness argument of a
decoder whose loop takes one token in each pass. -/

namespace Pmb887x.Library.Lzss

inductive Token where
  | literals (bytes : List UInt8)
  | copy (length distance : Nat)
  deriving DecidableEq, Repr

/-- A token's encoding. -/
def Token.bytes : Token → List UInt8
  | .literals bytes => UInt8.ofNat (bytes.length - 1) :: bytes
  | .copy length distance => UInt8.ofNat (0x80 + (length - 3)) :: leBytes 2 distance

/-- The text after a token. -/
def Token.expand (text : List UInt8) : Token → List UInt8
  | .literals bytes => text ++ bytes
  | .copy length distance => copyMatch text distance length

/-- The token can be encoded, and its distance stays inside the text. -/
def Token.Valid (text : List UInt8) : Token → Prop
  | .literals bytes => 0 < bytes.length ∧ bytes.length ≤ 128
  | .copy length distance =>
      (3 ≤ length ∧ length ≤ 130) ∧ 0 < distance ∧ distance < 0x10000 ∧ distance ≤ text.length

def bytesAll (tokens : List Token) : List UInt8 := (tokens.map Token.bytes).flatten

def expandAll (text : List UInt8) (tokens : List Token) : List UInt8 :=
  tokens.foldl Token.expand text

def ValidAll : List UInt8 → List Token → Prop
  | _, [] => True
  | text, t :: ts => t.Valid text ∧ ValidAll (t.expand text) ts

theorem bytesAll_append (ts ts' : List Token) :
    bytesAll (ts ++ ts') = bytesAll ts ++ bytesAll ts' := by
  simp [bytesAll]

theorem expandAll_append (text : List UInt8) (ts ts' : List Token) :
    expandAll text (ts ++ ts') = expandAll (expandAll text ts) ts' := by
  simp [expandAll]

theorem validAll_append (text : List UInt8) (ts ts' : List Token) :
    ValidAll text (ts ++ ts') ↔ ValidAll text ts ∧ ValidAll (expandAll text ts) ts' := by
  induction ts generalizing text with
  | nil => simp [ValidAll, expandAll]
  | cons t ts ih => simp [ValidAll, ih, expandAll, and_assoc]

/-- A valid token makes the text longer. -/
theorem Token.Valid.length_lt {text : List UInt8} {t : Token} (h : t.Valid text) :
    text.length < (t.expand text).length := by
  cases t with
  | literals bytes =>
      have := h.1
      simp only [Token.expand, List.length_append]
      omega
  | copy length distance =>
      have := h.1
      simp only [Token.expand, copyMatch_length]
      omega

theorem ValidAll.length_le {text : List UInt8} {ts : List Token} (h : ValidAll text ts) :
    text.length ≤ (expandAll text ts).length := by
  induction ts generalizing text with
  | nil => exact Nat.le_refl _
  | cons t ts ih => exact Nat.le_trans (Nat.le_of_lt h.1.length_lt) (ih h.2)

/-! ## Decoders -/

/-- `rest` is what is left of the input from index `i` on. -/
def RestAt (input : List UInt8) (i : Nat) (rest : List UInt8) : Prop :=
  i ≤ input.length ∧ input.drop i = rest

theorem RestAt.head {input rest : List UInt8} {i : Nat} {b : UInt8} (h : RestAt input i (b :: rest)) :
    input.getD i 0 = b ∧ RestAt input (i + 1) rest := by
  obtain ⟨hle, hdrop⟩ := h
  have hget : input[i]? = some b := by
    rw [← List.head?_drop, hdrop]
    rfl
  obtain ⟨hlt, -⟩ := List.getElem?_eq_some_iff.mp hget
  refine ⟨by rw [List.getD_eq_getElem?_getD, hget]; rfl, hlt, ?_⟩
  rw [← List.tail_drop, hdrop]
  rfl

/-- What is left determines the index. -/
theorem RestAt.index_eq {input rest : List UInt8} {i j : Nat} (hi : RestAt input i rest)
    (hj : RestAt input j rest) : i = j := by
  have hlen := congrArg List.length (hi.2.trans hj.2.symm)
  rw [List.length_drop, List.length_drop] at hlen
  have := hi.1
  have := hj.1
  omega

section Loop

variable {σ : Type}

/-- A pass of the decoder takes one token; `At text rest s` says that the decoder `s` has produced
    `text` and that `rest` is left to read. -/
def TakesTokens (At : List UInt8 → List UInt8 → σ → Prop) (step : σ → σ) : Prop :=
  ∀ text (t : Token) rest s, t.Valid text → At text (t.bytes ++ rest) s → At (t.expand text) rest (step s)

/-- **A loop that takes one token in each pass.** If it goes on while the text is shorter than the
    tokens make it, it ends behind the last token. -/
theorem loop_tokens {At : List UInt8 → List UInt8 → σ → Prop} {step loop : σ → σ} {total : Nat}
    (more : σ → Prop) [DecidablePred more] (hstep : TakesTokens At step)
    (hmore : ∀ text rest s, At text rest s → (more s ↔ text.length < total))
    (hloop : ∀ s, loop s = if more s then loop (step s) else s) (ts : List Token) :
    ∀ text rest s, ValidAll text ts → (expandAll text ts).length = total →
      At text (bytesAll ts ++ rest) s → At (expandAll text ts) rest (loop s) := by
  induction ts with
  | nil =>
      intro text rest s _ htotal hat
      have hend : ¬ more s := by
        rw [hmore text _ s hat, ← htotal]
        exact Nat.lt_irrefl _
      rw [hloop, if_neg hend]
      exact hat
  | cons t ts ih =>
      intro text rest s hvalid htotal hat
      have hgoes : more s := by
        rw [hmore text _ s hat, ← htotal]
        exact Nat.lt_of_lt_of_le hvalid.1.length_lt hvalid.2.length_le
      rw [hloop, if_pos hgoes]
      refine ih (t.expand text) rest (step s) hvalid.2 htotal (hstep text t _ s hvalid.1 ?_)
      rwa [← List.append_assoc]

end Loop

/-! ## Blocks -/

/-- `packed` holds the blocks one after the other: block `i` is the text that the tokens from
    `offsets[i]` up to the next offset add to the blocks before it. -/
structure Packed (blocks : List (List UInt8)) (packed : List UInt8) (offsets sizes : List Nat) :
    Prop where
  offsets_length : offsets.length = blocks.length
  offsets_le : ∀ o ∈ offsets, o ≤ packed.length
  sizes_eq : sizes = blocks.map List.length
  block : ∀ i < blocks.length, ∃ ts, ValidAll (blocks.take i).flatten ts ∧
    expandAll (blocks.take i).flatten ts = (blocks.take (i + 1)).flatten ∧
    packed.drop (offsets.getD i 0)
      = bytesAll ts ++ packed.drop (offsets.getD (i + 1) packed.length)

theorem packed_nil : Packed [] [] [] [] where
  offsets_length := rfl
  offsets_le := by simp
  sizes_eq := rfl
  block := by simp

theorem Packed.next_le {blocks : List (List UInt8)} {packed : List UInt8} {offsets sizes : List Nat}
    (h : Packed blocks packed offsets sizes) (i : Nat) :
    offsets.getD i packed.length ≤ packed.length := by
  rw [List.getD_eq_getElem?_getD]
  cases ho : offsets[i]? with
  | none => exact Nat.le_refl _
  | some o => exact h.offsets_le o (List.mem_of_getElem? ho)

/-- One more block at the end. -/
theorem Packed.push {blocks : List (List UInt8)} {packed : List UInt8} {offsets sizes : List Nat}
    (h : Packed blocks packed offsets sizes) {b : List UInt8} {ts : List Token}
    (hvalid : ValidAll blocks.flatten ts) (hexpand : expandAll blocks.flatten ts = blocks.flatten ++ b) :
    Packed (blocks ++ [b]) (packed ++ bytesAll ts) (offsets ++ [packed.length])
      (sizes ++ [b.length]) where
  offsets_length := by simp [h.offsets_length]
  offsets_le := by
    intro o ho
    rw [List.length_append]
    rcases List.mem_append.mp ho with hold | hnew
    · exact Nat.le_trans (h.offsets_le o hold) (Nat.le_add_right _ _)
    · rw [List.mem_singleton.mp hnew]
      exact Nat.le_add_right _ _
  sizes_eq := by simp [h.sizes_eq]
  block := by
    intro i hi
    rw [List.length_append, List.length_singleton] at hi
    rcases Nat.lt_succ_iff_lt_or_eq.mp hi with hold | rfl
    · obtain ⟨ts', hvalid', hexpand', hbytes⟩ := h.block i hold
      -- the new offset is where the last block ended so far
      have hnext : (offsets ++ [packed.length]).getD (i + 1) (packed ++ bytesAll ts).length
          = offsets.getD (i + 1) packed.length := by
        rcases Nat.lt_or_ge (i + 1) offsets.length with hlt | hge
        · rw [List.getD_append _ _ _ _ hlt, List.getD_eq_getElem _ _ hlt, List.getD_eq_getElem _ _ hlt]
        · have hlast : i + 1 - offsets.length = 0 := by
            rw [h.offsets_length]
            omega
          rw [List.getD_append_right _ _ _ _ hge, hlast, List.getD_eq_default _ _ hge]
          rfl
      have hle : offsets.getD i 0 ≤ packed.length := by
        have hlt : i < offsets.length := h.offsets_length ▸ hold
        rw [List.getD_eq_getElem _ _ hlt]
        exact h.offsets_le _ (List.getElem_mem hlt)
      refine ⟨ts', ?_, ?_, ?_⟩
      · rwa [List.take_append_of_le_length (by omega)]
      · rwa [List.take_append_of_le_length (by omega), List.take_append_of_le_length (by omega)]
      · rw [hnext, List.getD_append _ _ _ _ (h.offsets_length ▸ hold),
          List.drop_append_of_le_length hle, hbytes, List.append_assoc,
          ← List.drop_append_of_le_length (h.next_le (i + 1))]
    · refine ⟨ts, ?_, ?_, ?_⟩
      · rwa [List.take_append_of_le_length (Nat.le_refl _), List.take_length]
      · rw [List.take_append_of_le_length (Nat.le_refl _), List.take_length, hexpand,
          List.take_of_length_le (by simp)]
        simp
      · have hnew : (offsets ++ [packed.length]).getD offsets.length 0 = packed.length := by simp
        have hend : (offsets ++ [packed.length]).getD (offsets.length + 1)
            (packed ++ bytesAll ts).length = (packed ++ bytesAll ts).length :=
          List.getD_eq_default _ _ (by simp)
        rw [← h.offsets_length, hnew, hend]
        simp

theorem flatten_take_succ {blocks : List (List UInt8)} {i : Nat} (hi : i < blocks.length) :
    (blocks.take (i + 1)).flatten = (blocks.take i).flatten ++ blocks.getD i [] := by
  rw [List.take_add_one, List.getElem?_eq_getElem hi, List.flatten_append,
    List.getD_eq_getElem _ _ hi]
  simp

theorem Packed.getD_sizes {blocks : List (List UInt8)} {packed : List UInt8}
    {offsets sizes : List Nat} (h : Packed blocks packed offsets sizes) {i : Nat}
    (hi : i < blocks.length) : sizes.getD i 0 = (blocks.getD i []).length := by
  rw [h.sizes_eq, List.getD_eq_getElem _ _ (by simpa using hi), List.getElem_map,
    List.getD_eq_getElem _ _ hi]

theorem Packed.restAt {blocks : List (List UInt8)} {packed : List UInt8} {offsets sizes : List Nat}
    (h : Packed blocks packed offsets sizes) {i : Nat} (hi : i < blocks.length) :
    RestAt packed (offsets.getD i 0) (packed.drop (offsets.getD i 0)) := by
  have hlt : i < offsets.length := h.offsets_length ▸ hi
  rw [List.getD_eq_getElem _ _ hlt]
  exact ⟨h.offsets_le _ (List.getElem_mem hlt), rfl⟩

end Pmb887x.Library.Lzss
