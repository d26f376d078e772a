import DiceNotation.Proofs.LiteralParts
import DiceNotation.Proofs.Sequence

/-!
# Reading literals

The reader accepts every literal that is made of well-formed parts. What it accepts beyond these has
a zero in front of a number.
-/

namespace DiceNotation

/-! ## Numbers -/

namespace Numeral

theorem read?_eq_some_iff {w : List Char} {n : Nat} :
    read? w = some n ↔ w ∈ Pattern.number.matches' ∧ Nat.ofDigitChars 10 w 0 = n := by
  rw [Pattern.mem_number, read?]
  split
  next h =>
    refine iff_of_false (by simp) fun hw => ?_
    simp only [Bool.or_eq_true, List.isEmpty_iff, Bool.not_eq_true', List.all_eq_false] at h
    rcases h with hnil | ⟨c, hc, hnot⟩
    · exact hw.1.1 hnil
    · exact hnot (hw.1.2 c hc)
  next h => simp_all

/-- A number without a zero in front is not zero. -/
theorem value_pos {w : List Char} (hw : w ∈ Pattern.positive.matches') :
    0 < Nat.ofDigitChars 10 w 0 := by
  obtain ⟨c, digits, rfl, ⟨hc, hzero⟩, -⟩ := Pattern.mem_positive.mp hw
  have hvalue : 0 < c.toNat - '0'.toNat := by
    have hle := (Char.isDigit_iff_toNat.mp hc).1
    have hne : c.toNat ≠ '0'.toNat := fun h => hzero (Char.toNat_inj.mp h)
    omega
  rw [Nat.ofDigitChars_cons, Nat.ofDigitChars_eq_ofDigitChars_zero]
  positivity

end Numeral

theorem Quantity.exists_saturate? {n : Nat} (hn : 0 < n) : ∃ q, saturate? n = some q := by
  have hmin : 0 < min n largest ∧ min n largest ≤ 4294967295 :=
    ⟨lt_min hn (by decide), min_le_right n largest⟩
  exact ⟨⟨min n largest, hmin.1, hmin.2⟩, by simp only [saturate?, ofNat?, dif_pos hmin]⟩

theorem Quantity.val_of_saturate? {n : Nat} {q : Quantity} (h : saturate? n = some q) :
    q.val = min n largest := by
  unfold saturate? ofNat? at h
  split at h
  next =>
    cases h
    rfl
  next => cases h

theorem DiceKind.ofTag?_eq_some_iff {w : List Char} {kind : DiceKind} :
    ofTag? w = some kind ↔ kind ∈ tagged ∧ w.map Char.toLower = kind.foldedTag := by
  constructor
  · intro h
    have hfound := List.find?_some h
    exact ⟨List.mem_of_find?_eq_some h, (beq_iff_eq.mp hfound).symm⟩
  · rintro ⟨hkind, hw⟩
    have hapart : ∀ kind ∈ tagged, tagged.find? (·.foldedTag == kind.foldedTag) = some kind := by
      decide
    rw [ofTag?, hw]
    exact hapart kind hkind

namespace Literal

variable {w text : List Char}

/-! ## The parts -/

theorem exists_readCount (hw : w = [] ∨ w ∈ Pattern.positive.matches') :
    ∃ count, readCount w = .ok count := by
  rcases hw with rfl | hw
  · exact ⟨.one, rfl⟩
  · have hread := Numeral.read?_eq_some_iff.mpr ⟨Pattern.mem_number_of_mem_positive hw, rfl⟩
    obtain ⟨count, hcount⟩ := Quantity.exists_saturate? (Numeral.value_pos hw)
    refine ⟨count, ?_⟩
    simp [readCount, hread, hcount, Pattern.ne_nil_of_mem_positive hw]

/-- A count that can be read is missing or a number. -/
theorem readCount_cases {count : Quantity} (h : readCount w = .ok count) :
    w = [] ∧ count = .one ∨
      ∃ n, Numeral.read? w = some n ∧ Quantity.saturate? n = some count := by
  unfold readCount at h
  split at h
  next hnil =>
    cases h
    exact .inl ⟨List.isEmpty_iff.mp hnil, rfl⟩
  next =>
    split at h
    next => cases h
    next n hread =>
      split at h
      next => cases h
      next hsaturate =>
        cases h
        exact .inr ⟨n, hread, hsaturate⟩

/-- Faces that can be read are `%`, a number, or a tag. -/
theorem readSides_cases {kind : DiceKind} {sides : Quantity}
    (h : readSides w = .ok (kind, sides)) :
    kind = .standard ∧ w = ['%'] ∧ sides.val = 100 ∨
      (kind = .standard ∧
        ∃ n, Numeral.read? w = some n ∧ Quantity.saturate? n = some sides) ∨
      kind ∈ DiceKind.tagged ∧ w.map Char.toLower = kind.foldedTag ∧
        kind.fixedSides? = some sides := by
  unfold readSides at h
  split at h
  next hpercent =>
    cases h
    exact .inl ⟨rfl, hpercent, rfl⟩
  next =>
    split at h
    next n hread =>
      split at h
      next => cases h
      next hsaturate =>
        cases h
        exact .inr (.inl ⟨rfl, n, hread, hsaturate⟩)
    next =>
      split at h
      next => cases h
      next found hfound =>
        split at h
        next => cases h
        next hfixed =>
          cases h
          obtain ⟨hkind, htag⟩ := DiceKind.ofTag?_eq_some_iff.mp hfound
          exact .inr (.inr ⟨hkind, htag, hfixed⟩)

theorem exists_readSides (hw : w ∈ Pattern.sides.matches') : ∃ faces, readSides w = .ok faces := by
  rcases Pattern.mem_sides.mp hw with hpositive | hnamed
  · have hread := Numeral.read?_eq_some_iff.mpr ⟨Pattern.mem_number_of_mem_positive hpositive, rfl⟩
    obtain ⟨sides, hsides⟩ := Quantity.exists_saturate? (Numeral.value_pos hpositive)
    have hpercent : w ≠ ['%'] := by
      rintro rfl
      cases hread
    exact ⟨(.standard, sides), by simp [readSides, hpercent, hread, hsides]⟩
  · rcases Pattern.mem_namedSides.mp hnamed with rfl | ⟨kind, hkind, htag⟩
    · exact ⟨_, rfl⟩
    · have htag? := DiceKind.ofTag?_eq_some_iff.mpr ⟨hkind, htag⟩
      have hfixed : ∀ kind ∈ DiceKind.tagged, kind.fixedSides?.isSome = true := by decide
      obtain ⟨sides, hsides⟩ := Option.isSome_iff_exists.mp (hfixed kind hkind)
      obtain ⟨c, tail, rfl, hdigit, hpercent⟩ := DiceKind.head_of_tag hkind htag
      have hread : Numeral.read? (c :: tail) = none := by simp [Numeral.read?, hdigit]
      exact ⟨(kind, sides), by simp [readSides, hpercent, hread, htag?, hsides]⟩

theorem splitDirection_of_mem_number {digits : List Char}
    (hdigits : digits ∈ Pattern.number.matches') : splitDirection digits = (none, digits) := by
  obtain ⟨hne, hall⟩ := Pattern.mem_number.mp hdigits
  obtain ⟨c, tail, rfl⟩ := List.exists_cons_of_ne_nil hne
  simp [splitDirection, readDirection?_of_isDigit (hall c List.mem_cons_self)]

theorem splitDirection_append {direction digits : List Char}
    (hdirection : direction = [] ∨ ∃ d, direction = [d] ∧ (readDirection? d).isSome = true)
    (hdigits : digits ∈ Pattern.number.matches') :
    (splitDirection (direction ++ digits)).2 = digits := by
  rcases hdirection with rfl | ⟨d, rfl, hd⟩
  · rw [List.nil_append, splitDirection_of_mem_number hdigits]
  · obtain ⟨direction, hdirection⟩ := Option.isSome_iff_exists.mp hd
    simp [splitDirection, hdirection]

theorem exists_readSuffix (hw : w = [] ∨ w ∈ Pattern.selection.matches') :
    ∃ selection?, readSuffix w = .ok selection? := by
  rcases hw with rfl | hw
  · exact ⟨none, rfl⟩
  · obtain ⟨c, direction, digits, rfl, hmode, hdirection, hdigits⟩ := Pattern.mem_selection.mp hw
    obtain ⟨mode, hmode⟩ := Option.isSome_iff_exists.mp hmode
    have hnumber := Pattern.mem_number_of_mem_positive hdigits
    have hread := Numeral.read?_eq_some_iff.mpr ⟨hnumber, rfl⟩
    obtain ⟨amount, hamount⟩ := Quantity.exists_saturate? (Numeral.value_pos hdigits)
    have hsplit := splitDirection_append hdirection hnumber
    refine ⟨some (.of mode (splitDirection (direction ++ digits)).1 amount), ?_⟩
    simp [readSuffix, readSelection?, hmode, hsplit, hread, hamount]

/-! ## The whole literal -/

theorem splitSides_of_isDigit {c : Char} {rest : List Char} (hc : c.isDigit = true) :
    splitSides (c :: rest) = (c :: rest).span Char.isDigit := by
  have hpercent : c ≠ '%' := by
    rintro rfl
    simp at hc
  simp only [splitSides, if_neg hpercent, hc, if_true]

/-- The faces end where a number or a tag ends, unless digits go on behind digits. -/
theorem splitSides_append
    (hw : w ∈ Pattern.number.matches' ∨ w ∈ Pattern.namedSides.matches')
    (hrest : ∀ c ∈ text.head?, c.isDigit = false) : splitSides (w ++ text) = (w, text) := by
  rcases hw with hnumber | hnamed
  · obtain ⟨hne, hword⟩ := Pattern.mem_number.mp hnumber
    obtain ⟨c, digits, rfl⟩ := List.exists_cons_of_ne_nil hne
    have hc : c.isDigit = true := hword c List.mem_cons_self
    have hstop : text.takeWhile Char.isDigit = [] ∧ text.dropWhile Char.isDigit = text := by
      cases text with
      | nil => exact ⟨rfl, rfl⟩
      | cons d tail => simp [hrest d rfl]
    rw [List.cons_append, splitSides_of_isDigit hc, ← List.cons_append,
      List.span_eq_takeWhile_dropWhile, List.takeWhile_append_of_pos hword,
      List.dropWhile_append_of_pos hword, hstop.1, hstop.2, List.append_nil]
  · rcases Pattern.mem_namedSides.mp hnamed with rfl | ⟨kind, hkind, htag⟩
    · rfl
    · have hstart : DiceKind.ofStart? (w ++ text) = some kind :=
        DiceKind.ofStart?_eq_some_iff.mpr ⟨hkind, by simp [htag]⟩
      have hlength : kind.tag.length = w.length := by
        rw [← kind.length_foldedTag, ← htag, List.length_map]
      obtain ⟨c, tail, rfl, hdigit, hpercent⟩ := DiceKind.head_of_tag hkind htag
      rw [List.cons_append] at hstart ⊢
      simp only [splitSides, if_neg hpercent, hdigit, hstart, hlength, Bool.false_eq_true, if_false]
      exact List.splitAt_eq.trans (Prod.ext List.take_left List.drop_left)

theorem splitSides_eq_append (text : List Char) :
    (splitSides text).1 ++ (splitSides text).2 = text := by
  unfold splitSides
  split
  next => rfl
  next c rest =>
    split
    next => rfl
    next =>
      split
      next =>
        rw [List.span_eq_takeWhile_dropWhile]
        exact List.takeWhile_append_dropWhile
      next =>
        split
        next =>
          rw [List.splitAt_eq]
          exact List.take_append_drop _ _
        next =>
          rw [List.span_eq_takeWhile_dropWhile]
          exact List.takeWhile_append_dropWhile

theorem readDice_eq_ok_iff {dice : Dice} : readDice text = .ok dice ↔
    ∃ front d rest, text = front ++ d :: rest ∧ (∀ c ∈ front, isDelimiter c = false) ∧
      isDelimiter d = true ∧ readCount front = .ok dice.count ∧
      readSides (splitSides rest).1 = .ok (dice.kind, dice.sides) ∧
      (splitBang (splitSides rest).2).1 = dice.explode ∧
      readSuffix (splitBang (splitSides rest).2).2 = .ok dice.selection? := by
  constructor
  · intro h
    rw [readDice, List.span_eq_takeWhile_dropWhile] at h
    split at h
    next => cases h
    next d rest hspan =>
      obtain ⟨rfl, hrest⟩ := Prod.mk.inj hspan
      obtain ⟨count, hcount, h⟩ := bind_eq_ok_iff.mp h
      obtain ⟨⟨kind, sides⟩, hsides, h⟩ := bind_eq_ok_iff.mp h
      obtain ⟨selection?, hselection, h⟩ := bind_eq_ok_iff.mp h
      cases h
      refine ⟨_, d, rest, ?_, ?_, ?_, hcount, hsides, rfl, hselection⟩
      · rw [← hrest, List.takeWhile_append_dropWhile]
      · exact fun c hc => by simpa using List.all_eq_true.mp List.all_takeWhile c hc
      · have hd := List.head?_dropWhile_not (!isDelimiter ·) text
        simpa [hrest] using hd
  · rintro ⟨front, d, rest, rfl, hfront, hd, hcount, hsides, hexplode, hselection⟩
    have hspan : (front ++ d :: rest).span (!isDelimiter ·) = (front, d :: rest) := by
      rw [List.span_eq_takeWhile_dropWhile, List.takeWhile_append_of_pos (by simpa using hfront),
        List.dropWhile_append_of_pos (by simpa using hfront)]
      simp [hd]
    unfold readDice
    rw [hspan]
    exact bind_eq_ok_iff.mpr ⟨_, hcount, bind_eq_ok_iff.mpr ⟨_, hsides,
      bind_eq_ok_iff.mpr ⟨_, hselection, hexplode ▸ rfl⟩⟩⟩

/-- A `!` is split off in front of a selection, and nothing if there is none. -/
theorem splitBang_append {bang : List Char} (hbang : bang = [] ∨ bang = ['!'])
    (htext : text.head? ≠ some '!') : (splitBang (bang ++ text)).2 = text := by
  rcases hbang with rfl | rfl
  · cases text with
    | nil => rfl
    | cons c rest =>
        have hc : c ≠ '!' := fun hc => htext (congrArg some hc)
        simp [splitBang, hc]
  · rfl

theorem mem_number_or_namedSides (hw : w ∈ Pattern.sides.matches') :
    w ∈ Pattern.number.matches' ∨ w ∈ Pattern.namedSides.matches' :=
  (Pattern.mem_sides.mp hw).imp_left Pattern.mem_number_of_mem_positive

theorem not_isDelimiter_of_mem_count {parts : Lexeme.DiceParts} (h : parts.WellFormed) :
    ∀ c ∈ parts.count, isDelimiter c = false := by
  intro c hc
  rcases h.count with hnil | hpositive
  · simp [hnil] at hc
  · exact not_isDelimiter_of_isDigit (Pattern.isDigit_of_mem_positive hpositive c hc)

/-- A literal that is made of well-formed parts can be read. -/
theorem exists_readDice {parts : Lexeme.DiceParts} (h : parts.WellFormed) :
    ∃ dice, readDice parts.text = .ok dice := by
  -- the reader cuts at the first delimiter, so there must be none in the count
  have hfront := not_isDelimiter_of_mem_count h
  have hsides := splitSides_append (mem_number_or_namedSides h.sides) h.head_suffix
  have hselection := splitBang_append h.bang h.head_selection
  obtain ⟨count, hcount⟩ := exists_readCount h.count
  obtain ⟨⟨kind, sides⟩, hfaces⟩ := exists_readSides h.sides
  obtain ⟨selection?, hsuffix⟩ := exists_readSuffix h.selection
  refine ⟨⟨count, sides, kind, (splitBang (parts.bang ++ parts.selection)).1, selection?⟩,
    readDice_eq_ok_iff.mpr ⟨parts.count, parts.delimiter,
      parts.sides ++ (parts.bang ++ parts.selection), by simp [Lexeme.DiceParts.text], hfront,
      h.delimiter, hcount, ?_, ?_, ?_⟩⟩
  · rw [hsides, hfaces]
  · rw [hsides]
  · rw [hsides, hselection, hsuffix]

/-- The reader takes a literal apart as it is put together. -/
theorem read_parts {parts : Lexeme.DiceParts} (h : parts.WellFormed) {dice : Dice}
    (hread : readDice parts.text = .ok dice) :
    readCount parts.count = .ok dice.count ∧
      readSides parts.sides = .ok (dice.kind, dice.sides) := by
  obtain ⟨front, d, rest, htext, hfront, hd, hcount, hsides, -, -⟩ := readDice_eq_ok_iff.mp hread
  have hparts : parts.text =
      parts.count ++ parts.delimiter :: (parts.sides ++ (parts.bang ++ parts.selection)) := by
    simp [Lexeme.DiceParts.text]
  rw [hparts] at htext
  -- neither what the reader takes for the count nor the count has a delimiter in it
  have hsame : parts.count = front := by
    have hwhile := congrArg (List.takeWhile (!isDelimiter ·)) htext
    rwa [List.takeWhile_append_of_pos (by simpa using not_isDelimiter_of_mem_count h),
      List.takeWhile_append_of_pos (by simpa using hfront),
      List.takeWhile_cons_of_neg (by simp [h.delimiter]),
      List.takeWhile_cons_of_neg (by simp [hd]), List.append_nil, List.append_nil] at hwhile
  rw [hsame] at htext
  obtain ⟨-, hrest⟩ := List.cons.inj (List.append_cancel_left htext)
  rw [← hrest, splitSides_append (mem_number_or_namedSides h.sides) h.head_suffix] at hsides
  exact ⟨hsame ▸ hcount, hsides⟩

end Literal

end DiceNotation
