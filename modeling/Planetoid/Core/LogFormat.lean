import Planetoid.Core.LogText

namespace Planetoid.Log

open Planetoid Program

/-! What a format string and its arguments stand for. -/

inductive Piece where
  | literal (c : Char)
  | directive (prefixed : Bool) (width : UInt32) (type : Char)
  | incomplete
  deriving DecidableEq, Repr

inductive Mode where
  | copying
  | opened
  | counting (prefixed : Bool) (width : UInt32)

def pieces : Mode → List Char → List Piece
  | .copying, [] => []
  | .opened, [] => [.incomplete]
  | .counting .., [] => [.incomplete]
  | .copying, c :: rest =>
    if c = '%' then pieces .opened rest
    else .literal c :: pieces .copying rest
  | .opened, c :: rest =>
    if c = '#' then pieces (.counting true 0) rest
    else if isDigit c then pieces (.counting false (digitValue c)) rest
    else .directive false 0 c :: pieces .copying rest
  | .counting prefixed width, c :: rest =>
    if isDigit c then
      pieces (.counting prefixed (width * 10 + digitValue c)) rest
    else .directive prefixed width c :: pieces .copying rest

/-- The text of a piece, and whether the code stores it only as far as there
is room. -/
inductive Chunk where
  | checked (text : List Char)
  | unchecked (text : List Char)
  | incomplete

def Chunk.text : Chunk → List Char
  | .checked text => text
  | .unchecked text => text
  | .incomplete => []

/-- The text of a directive and the remaining arguments, when the first
argument has the type of the directive. -/
def conversion (prefixed : Bool) (width : UInt32) (type : Char)
    (args : List Argument) : Option (Chunk × List Argument) :=
  if type = 's' then match args with
    | .string value :: rest =>
      some (.checked (value.getD nullText).chars, rest)
    | _ => none
  else if type = 'u' then match args with
    | .unsigned value :: rest => some (.unchecked (decimal value.toNat), rest)
    | _ => none
  else if type = 'i' then match args with
    | .int value :: rest => some (.unchecked (signed value.toInt), rest)
    | _ => none
  else if type = 'x' then match args with
    | .long value :: rest => some (.unchecked (padded 'x' prefixed
        width.toNat (numeral 16 hexDigit value.toNat)), rest)
    | _ => none
  else if type = 'b' then match args with
    | .long value :: rest => some (.unchecked (padded 'b' prefixed
        width.toNat (numeral 2 binDigit value.toNat)), rest)
    | _ => none
  else
    some (.unchecked ['%', type], args)

/-- The texts of the pieces, when the arguments have matching types. -/
def chunks : List Piece → List Argument → Option (List Chunk)
  | [], _ => some []
  | .literal c :: rest, args =>
    (chunks rest args).map (.checked [c] :: ·)
  | .directive prefixed width type :: rest, args => do
    let (chunk, args) ← conversion prefixed width type args
    let others ← chunks rest args
    pure (chunk :: others)
  | .incomplete :: _, _ => some [.incomplete]

def rendering (parts : List Chunk) : List Char :=
  parts.flatMap Chunk.text

/-- With room for so many characters, every text that is reached before the
room is used up and that the code stores unchecked fits, and no incomplete
directive is reached. -/
def Fits : Nat → List Chunk → Prop
  | 0, _ => True
  | _ + 1, [] => True
  | room + 1, .checked text :: rest => Fits (room + 1 - text.length) rest
  | room + 1, .unchecked text :: rest =>
    text.length ≤ room + 1 ∧ Fits (room + 1 - text.length) rest
  | _ + 1, .incomplete :: _ => False

def emit : Nat → List Chunk → Except PrintFault (List Char)
  | 0, _ => .ok []
  | _ + 1, [] => .ok []
  | room + 1, .checked text :: rest =>
    (emit (room + 1 - text.length) rest).map (text.take (room + 1) ++ ·)
  | room + 1, .unchecked text :: rest =>
    if text.length ≤ room + 1 then
      (emit (room + 1 - text.length) rest).map (text ++ ·)
    else
      .error .outOfBounds
  | _ + 1, .incomplete :: _ => .error .pastTerminator

theorem take_append_of_length {room : Nat} (text rest : List Char) :
    (text ++ rest).take room =
      text.take room ++ rest.take (room - text.length) :=
  List.take_append

theorem emit_of_fits {room : Nat} {parts : List Chunk}
    (h : Fits room parts) :
    emit room parts = .ok ((rendering parts).take room) := by
  fun_induction emit room parts with
  | case1 parts => simp
  | case2 room => simp [rendering]
  | case3 room text rest ih =>
      rw [ih h]
      simp [rendering, Except.map, take_append_of_length, Chunk.text]
  | case4 room text rest hfits ih =>
      rw [ih h.2]
      simp [rendering, Except.map, take_append_of_length, Chunk.text,
        List.take_of_length_le hfits]
  | case5 room text rest hfits => exact absurd h.1 hfits
  | case6 room rest => exact h.elim

theorem fits_of_emit {room : Nat} {parts : List Chunk} {text : List Char}
    (h : emit room parts = .ok text) : Fits room parts := by
  induction parts generalizing room text with
  | nil => cases room <;> trivial
  | cons part rest ih =>
      cases room with
      | zero => trivial
      | succ room =>
          cases part with
          | checked first =>
              unfold emit at h
              cases hrest : emit (room + 1 - first.length) rest with
              | error fault => simp [hrest, Except.map] at h
              | ok last => exact ih hrest
          | unchecked first =>
              unfold emit at h
              split at h
              · rename_i hfits
                cases hrest : emit (room + 1 - first.length) rest with
                | error fault => simp [hrest, Except.map] at h
                | ok last => exact ⟨hfits, ih hrest⟩
              · cases h
          | incomplete => cases h

theorem nul_notMem_numeral {base : Nat} (hbase : 1 < base)
    {digit : Nat → Char} (hdigit : ∀ value, value < base → digit value ≠ nul)
    (value : Nat) : nul ∉ numeral base digit value := by
  unfold numeral
  split
  · decide
  · intro hmem
    rw [List.mem_reverse, List.mem_map] at hmem
    obtain ⟨last, hlast, heq⟩ := hmem
    exact hdigit last (Nat.digits_lt_base hbase hlast) heq

theorem nul_notMem_decimal (value : Nat) : nul ∉ decimal value :=
  nul_notMem_numeral (by decide) (by decide) value

theorem nul_notMem_signed (value : Int) : nul ∉ signed value := by
  unfold signed
  split
  · intro hmem
    rcases List.mem_cons.mp hmem with heq | hmem
    · exact absurd heq (by decide)
    · exact nul_notMem_decimal _ hmem
  · exact nul_notMem_decimal _

theorem nul_notMem_padded {letter : Char} (hletter : letter ≠ nul)
    (prefixed : Bool) (width : Nat) {text : List Char} (htext : nul ∉ text) :
    nul ∉ padded letter prefixed width text := by
  intro hmem
  rcases List.mem_append.mp hmem with hmem | hmem
  · cases prefixed with
    | false => simp at hmem
    | true =>
        simp only [if_true, List.mem_cons, List.not_mem_nil, or_false] at hmem
        rcases hmem with heq | heq
        · exact absurd heq (by decide)
        · exact hletter heq.symm
  · rcases List.mem_append.mp hmem with hmem | hmem
    · exact absurd (List.eq_of_mem_replicate hmem) (by decide)
    · exact htext hmem

theorem nul_notMem_conversion {prefixed : Bool} {width : UInt32}
    {type : Char} {args others : List Argument} {chunk : Chunk}
    (htype : type ≠ nul)
    (h : conversion prefixed width type args = some (chunk, others)) :
    nul ∉ chunk.text := by
  unfold conversion at h
  split at h
  · split at h
    · rename_i value rest
      cases h
      exact (value.getD nullText).unterminated
    · cases h
  split at h
  · split at h
    · cases h
      exact nul_notMem_decimal _
    · cases h
  split at h
  · split at h
    · cases h
      exact nul_notMem_signed _
    · cases h
  split at h
  · split at h
    · cases h
      exact nul_notMem_padded (by decide) _ _
        (nul_notMem_numeral (by decide) (by decide) _)
    · cases h
  split at h
  · split at h
    · cases h
      exact nul_notMem_padded (by decide) _ _
        (nul_notMem_numeral (by decide) (by decide) _)
    · cases h
  · cases h
    intro hmem
    rcases List.mem_cons.mp hmem with heq | hmem
    · exact absurd heq (by decide)
    · exact htype (List.mem_singleton.mp hmem).symm

def Piece.clean : Piece → Prop
  | .literal c => c ≠ nul
  | .directive _ _ type => type ≠ nul
  | .incomplete => True

theorem clean_of_mem_pieces {chars : List Char} (hchars : nul ∉ chars)
    (mode : Mode) : ∀ piece, piece ∈ pieces mode chars → piece.clean := by
  induction chars generalizing mode with
  | nil => cases mode <;> simp [pieces, Piece.clean]
  | cons c chars ih =>
      have hc : c ≠ nul := fun heq => hchars (by simp [heq])
      have hrest := ih fun hmem => hchars (List.mem_cons_of_mem _ hmem)
      intro piece hpiece
      cases mode with
      | copying =>
          simp only [pieces] at hpiece
          split at hpiece
          · exact hrest _ piece hpiece
          · rcases List.mem_cons.mp hpiece with rfl | hmem
            · exact hc
            · exact hrest _ piece hmem
      | opened =>
          simp only [pieces] at hpiece
          split at hpiece
          · exact hrest _ piece hpiece
          split at hpiece
          · exact hrest _ piece hpiece
          · rcases List.mem_cons.mp hpiece with rfl | hmem
            · exact hc
            · exact hrest _ piece hmem
      | counting prefixed width =>
          simp only [pieces] at hpiece
          split at hpiece
          · exact hrest _ piece hpiece
          · rcases List.mem_cons.mp hpiece with rfl | hmem
            · exact hc
            · exact hrest _ piece hmem

theorem nul_notMem_rendering {list : List Piece}
    (hclean : ∀ piece, piece ∈ list → piece.clean) {args : List Argument}
    {parts : List Chunk} (h : chunks list args = some parts) :
    nul ∉ rendering parts := by
  induction list generalizing args parts with
  | nil =>
      obtain rfl := Option.some.inj h
      simp [rendering]
  | cons piece list ih =>
      have hrest := @ih fun other hmem =>
        hclean other (List.mem_cons_of_mem _ hmem)
      have hpiece := hclean piece (by simp)
      cases piece with
      | literal c =>
          simp only [chunks, Option.map_eq_some_iff] at h
          obtain ⟨last, hlast, rfl⟩ := h
          intro hmem
          rcases List.mem_append.mp hmem with hmem | hmem
          · exact hpiece (List.mem_singleton.mp hmem).symm
          · exact hrest hlast hmem
      | directive prefixed width type =>
          simp only [chunks, Option.bind_eq_bind,
            Option.bind_eq_some_iff] at h
          obtain ⟨⟨chunk, others⟩, hconversion, last, hlast, h⟩ := h
          obtain rfl := Option.some.inj h
          intro hmem
          rcases List.mem_append.mp hmem with hmem | hmem
          · exact nul_notMem_conversion hpiece hconversion hmem
          · exact hrest hlast hmem
      | incomplete =>
          obtain rfl := Option.some.inj h
          simp [rendering, Chunk.text]

end Planetoid.Log
