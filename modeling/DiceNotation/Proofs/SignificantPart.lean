import DiceNotation.Proofs.Reading

/-!
# The significant part of a text

A text that is not blank is read as its significant part alone: as much of it as the length limit
leaves, without the blanks at either end. The cut can lay bare blanks in the middle of the text,
which go as well, so the part begins and ends with other characters. It is therefore its own
significant part, and reading it again changes nothing.
-/

namespace DiceNotation

variable {text : List Char}

/-- Neither the first nor the last character is blank. -/
structure Trimmed (text : List Char) : Prop where
  first : ∀ c ∈ text.head?, isBlank c = false
  last : ∀ c ∈ text.getLast?, isBlank c = false

theorem Trimmed.trim_eq (h : Trimmed text) : trim text = text := by
  have hstart : trimStart text = text := by
    cases text with
    | nil => rfl
    | cons c rest => exact List.dropWhile_cons_of_neg (by simp [h.first c rfl])
  have hend : trimEnd text = text := by
    apply List.rdropWhile_eq_self_iff.mpr
    intro hne
    simp [h.last _ (List.getLast?_eq_some_getLast hne)]
  rw [trim, hstart, hend]

theorem head_trimStart (text : List Char) : ∀ c ∈ (trimStart text).head?, isBlank c = false := by
  intro c hc
  have hstart : (text.dropWhile isBlank).head? = some c := hc
  have hhead := List.head?_dropWhile_not isBlank text
  rw [hstart] at hhead
  exact hhead

/-- A start of a text in front of which blanks were cut off begins with no blank. -/
theorem head_of_starts {part : List Char} (h : part <+: trimStart text) :
    ∀ c ∈ part.head?, isBlank c = false := by
  intro c hc
  obtain ⟨behind, hbehind⟩ := h
  apply head_trimStart text c
  rw [← hbehind, List.head?_append, Option.mem_def.mp hc]
  rfl

theorem getLast_trimEnd (text : List Char) :
    ∀ c ∈ (trimEnd text).getLast?, isBlank c = false := by
  intro c hc
  obtain ⟨hne, rfl⟩ := List.mem_getLast?_eq_getLast hc
  have hlast : ¬ isBlank ((trimEnd text).getLast hne) = true :=
    List.rdropWhile_last_not isBlank text hne
  simpa using hlast

theorem trimStart_eq_nil_iff : trimStart text = [] ↔ ∀ c ∈ text, isBlank c = true :=
  List.dropWhile_eq_nil_iff

theorem trim_eq_nil_iff : trim text = [] ↔ ∀ c ∈ text, isBlank c = true := by
  rw [← trimStart_eq_nil_iff]
  constructor
  · intro h
    have hblank := List.rdropWhile_eq_nil_iff.mp h
    cases hstart : trimStart text with
    | nil => rfl
    | cons c rest =>
        -- what the cut at the front has left begins with no blank
        have hc := head_trimStart text c (by rw [hstart]; rfl)
        rw [hblank c (by rw [hstart]; exact List.mem_cons_self)] at hc
        cases hc
  · intro h
    rw [trim, h]
    rfl

namespace Formula

variable {limits : Limits} {input : String}

/-! ## The part itself -/

theorem significant_starts (limits : Limits) (text : List Char) :
    significant limits text <+: trimStart text :=
  (trimEnd_starts _).trans ((List.take_prefix _ _).trans (trimEnd_starts _))

theorem trimmed_significant (limits : Limits) (text : List Char) :
    Trimmed (significant limits text) where
  first := head_of_starts (significant_starts limits text)
  last := getLast_trimEnd _

/-- A limit of one character is enough for something to be left. -/
theorem significant_ne_nil (hlimit : 1 ≤ limits.inputLength) (h : trim text ≠ []) :
    significant limits text ≠ [] := by
  obtain ⟨c, rest, hcons⟩ := List.exists_cons_of_ne_nil h
  have hc : isBlank c = false :=
    head_of_starts (trimEnd_starts (trimStart text)) c (congrArg List.head? hcons)
  have hmem : c ∈ (trim text).take limits.inputLength := by
    obtain ⟨n, hn⟩ := Nat.exists_eq_add_of_le' hlimit
    rw [hcons, hn, List.take_succ_cons]
    exact List.mem_cons_self
  intro hnil
  rw [List.rdropWhile_eq_nil_iff.mp hnil c hmem] at hc
  cases hc

/-- Nothing more is cut off a part of a text. -/
theorem significant_significant (limits : Limits) (text : List Char) :
    significant limits (significant limits text) = significant limits text := by
  have htrim := (trimmed_significant limits text).trim_eq
  rw [significant_of_length_le, htrim]
  rw [htrim]
  exact length_significant_le limits text

/-! ## Reading the part -/

/-- The character that is complained about stands in the part, at the place that is named. -/
theorem getElem?_of_ofPart {part : List Char} {c : Char} {position : Nat}
    (h : ofPart part = .error (.unexpectedChar c position)) : part[position]? = some c := by
  rcases ofPart_eq_error_iff.mp h with hscan | ⟨tokens, -, horder⟩
  · rw [Token.scan, String.toList_ofList] at hscan
    obtain ⟨words, tokens, d, rest, hlexes, -, he⟩ := Token.scanFrom_eq_error_iff.mp hscan
    obtain ⟨rfl, rfl⟩ := Error.unexpectedChar.inj he
    rw [← hlexes.flatten_append, Nat.zero_add, List.getElem?_append_right le_rfl, Nat.sub_self]
    rfl
  · cases PostOrder.ofInfix_eq_error horder

theorem exists_input_error_iff : (∃ e, read limits input = .error e ∧ e.kind = .input) ↔
    ∀ c ∈ input.toList, isBlank c = true := by
  rw [← trim_eq_nil_iff]
  constructor
  · rintro ⟨e, hread, hkind⟩
    by_contra hnonblank
    rw [read_of_nonblank hnonblank] at hread
    rw [kind_of_ofPart hread] at hkind
    cases hkind
  · intro hblank
    exact ⟨.blankInput, read_of_blank hblank, rfl⟩

/-- **Trimming and cutting.** A text is refused as input exactly if it is blank. Any other text is
read as its significant part: whatever has the same part is read in the same way, also under another
limit, and so is the part itself. The part is not empty, is within the limit and has no blanks at its
ends; it is the text of what is read, and it has the character that is complained about, if any, at
the place that is named. -/
theorem read_by_part (hlimit : 1 ≤ limits.inputLength) (input : String) :
    ((∃ e, read limits input = .error e ∧ e.kind = .input) ↔
      ∀ c ∈ input.toList, isBlank c = true) ∧
    ((∃ c ∈ input.toList, isBlank c = false) →
      let part := trimEnd ((trim input.toList).take limits.inputLength)
      (part ≠ [] ∧ part.length ≤ limits.inputLength ∧ Trimmed part) ∧
      (∀ (other : Limits) (text : String),
        trimEnd ((trim text.toList).take other.inputLength) = part →
          read other text = read limits input) ∧
      read limits (String.ofList part) = read limits input ∧
      (∀ formula, read limits input = .ok formula → formula.text = String.ofList part) ∧
      ∀ c position, read limits input = .error (.unexpectedChar c position) →
        position < limits.inputLength ∧ part[position]? = some c) := by
  refine ⟨exists_input_error_iff, ?_⟩
  rintro ⟨c, hc, hblank⟩ part
  have hnonblank : trim input.toList ≠ [] := fun hnil => by
    simp [trim_eq_nil_iff.mp hnil c hc] at hblank
  have hne : part ≠ [] := significant_ne_nil hlimit hnonblank
  have hlength : part.length ≤ limits.inputLength := length_significant_le limits input.toList
  have hread : read limits input = ofPart part := read_of_nonblank hnonblank
  have hsame : ∀ (other : Limits) (text : String), significant other text.toList = part →
      read other text = read limits input := by
    intro other text hpart
    have htext : trim text.toList ≠ [] := by
      intro hnil
      rw [significant, hnil] at hpart
      exact hne (by rw [← hpart]; simp [trimEnd])
    rw [read_of_nonblank htext, hpart, hread]
  refine ⟨⟨hne, hlength, trimmed_significant limits input.toList⟩, hsame, ?_, ?_, ?_⟩
  · apply hsame
    rw [String.toList_ofList]
    exact significant_significant limits input.toList
  · intro formula hformula
    obtain ⟨tokens, h⟩ := read_eq_ok_iff.mp hformula
    exact h.text
  · intro d position herror
    have hat : part[position]? = some d := getElem?_of_ofPart (hread ▸ herror)
    obtain ⟨hlt, -⟩ := List.getElem?_eq_some_iff.mp hat
    exact ⟨hlt.trans_le hlength, hat⟩

/-- The cut behind the sixth character leaves a blank at the end, and the `é` in front of it is what
cannot be read. -/
theorem read_by_part_cut : 1 ≤ Limits.inputLength { inputLength := 6 } ∧
    read { inputLength := 6 } "\u00a01d6 é 7" = .error (.unexpectedChar 'é' 4) ∧
    read { inputLength := 6 } "1d6 é" = .error (.unexpectedChar 'é' 4) ∧
    "1d6 é".toList[4]? = some 'é' := by
  have hread : read { inputLength := 6 } "\u00a01d6 é 7" = .error (.unexpectedChar 'é' 4) := by
    decide +kernel
  obtain ⟨-, hpart⟩ := @read_by_part { inputLength := 6 } (by decide) "\u00a01d6 é 7"
  obtain ⟨-, -, hagain, -, hposition⟩ := hpart ⟨'1', by decide, by decide⟩
  have htext : String.ofList (trimEnd ((trim "\u00a01d6 é 7".toList).take 6)) = "1d6 é" := by
    decide +kernel
  rw [htext] at hagain
  refine ⟨by decide, hread, hagain.trans hread, ?_⟩
  rw [← htext, String.toList_ofList]
  exact (hposition 'é' 4 hread).2

end Formula

end DiceNotation
