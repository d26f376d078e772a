import DiceNotation.Proofs.LiteralReading

/-!
# Spelling of literals

What the parts of a literal say, without a reader that takes a text apart. The reader accepts a text
exactly if it is put together from parts that spell a group, and it reads that group. Zeros in front
of a number say nothing; a number that is zero spells no group.
-/

namespace DiceNotation

/-! ## Numbers -/

/-- The digits write the quantity: the number that they say, or the largest one if they say more. -/
structure Quantity.WrittenAs (q : Quantity) (text : List Char) : Prop where
  ne_nil : text ≠ []
  digits : ∀ c ∈ text, c.isDigit = true
  ne_zero : Nat.ofDigitChars 10 text 0 ≠ 0
  val : q.val = min (Nat.ofDigitChars 10 text 0) 4294967295

namespace Quantity

variable {q : Quantity} {text : List Char} {n : Nat}

theorem val_inj {p q : Quantity} (h : p.val = q.val) : p = q := by
  cases p
  cases q
  cases h
  rfl

theorem saturate?_eq_some_iff : saturate? n = some q ↔ n ≠ 0 ∧ q.val = min n largest := by
  constructor
  · intro h
    have hval := val_of_saturate? h
    have hpos := q.pos
    refine ⟨?_, hval⟩
    rintro rfl
    rw [hval] at hpos
    exact absurd hpos (by decide)
  · rintro ⟨hn, hval⟩
    obtain ⟨p, hp⟩ := exists_saturate? (Nat.pos_of_ne_zero hn)
    rw [hp, val_inj ((val_of_saturate? hp).trans hval.symm)]

theorem writtenAs_iff :
    q.WrittenAs text ↔ ∃ n, Numeral.read? text = some n ∧ saturate? n = some q := by
  simp only [Numeral.read?_eq_some_iff, saturate?_eq_some_iff, Pattern.mem_number]
  constructor
  · rintro ⟨hne, hdigits, hzero, hval⟩
    exact ⟨_, ⟨⟨hne, hdigits⟩, rfl⟩, hzero, hval⟩
  · rintro ⟨_, ⟨⟨hne, hdigits⟩, rfl⟩, hzero, hval⟩
    exact ⟨hne, hdigits, hzero, hval⟩

theorem WrittenAs.mem_number (h : q.WrittenAs text) : text ∈ Pattern.number.matches' :=
  Pattern.mem_number.mpr ⟨h.ne_nil, h.digits⟩

/-- A quantity is written by its numeral. -/
theorem writtenAs_ofNat (q : Quantity) : q.WrittenAs (Numeral.ofNat q.val) :=
  writtenAs_iff.mpr ⟨q.val, Numeral.read?_ofNat q.val, saturate?_val q⟩

end Quantity

/-! ## Parts -/

/-- The tags in lower case, and the faces that they imply. -/
def DiceKind.tagRows : List (List Char × DiceKind × Nat) :=
  [(['f'], fudge, 3), (['h'], duality, 12), (['m', 'c', 'p', 'a', 't', 'k'], factionAttack, 8),
    (['m', 'c', 'p', 'd', 'e', 'f'], factionDefense, 8)]

/-- The faces part: `%` for a hundred standard faces, their number, or a tag in any case. -/
inductive DiceKind.WrittenAs : DiceKind → Quantity → List Char → Prop
  | percent {sides : Quantity} (hsides : sides.val = 100) : WrittenAs standard sides ['%']
  | number {sides : Quantity} {text : List Char} (hsides : sides.WrittenAs text) :
      WrittenAs standard sides text
  | tag {kind : DiceKind} {sides : Quantity} {text : List Char}
      (hrow : (text.map Char.toLower, kind, sides.val) ∈ tagRows) : WrittenAs kind sides text

/-- The selection part. A direction that is not written is high for `k` and low for `d`. -/
inductive Selection.WrittenAs (s : Selection) : List Char → Prop
  | directed {c d : Char} {digits : List Char} (hmode : c.toLower = s.mode.letter)
      (hdirection : d.toLower = s.direction.letter) (hamount : s.amount.WrittenAs digits) :
      WrittenAs s (c :: d :: digits)
  | undirected {c : Char} {digits : List Char} (hmode : c.toLower = s.mode.letter)
      (hdefault : s.mode = .keep ∧ s.direction = .high ∨ s.mode = .drop ∧ s.direction = .low)
      (hamount : s.amount.WrittenAs digits) : WrittenAs s (c :: digits)

/-- The parts spell the group. -/
structure Lexeme.DiceParts.Spells (parts : DiceParts) (dice : Dice) : Prop where
  count : parts.count = [] ∧ dice.count = .one ∨ dice.count.WrittenAs parts.count
  delimiter : parts.delimiter = 'd' ∨ parts.delimiter = 'D'
  sides : dice.kind.WrittenAs dice.sides parts.sides
  bang : parts.bang = if dice.explode then ['!'] else []
  selection : parts.selection = [] ∧ dice.selection? = none ∨
    ∃ s, dice.selection? = some s ∧ s.WrittenAs parts.selection

/-! ## Reading a part -/

namespace DiceKind

theorem mem_tagRows_iff {w : List Char} {kind : DiceKind} {n : Nat} : (w, kind, n) ∈ tagRows ↔
    kind ∈ tagged ∧ w = kind.foldedTag ∧ kind.fixedSides?.map Quantity.val = some n := by
  constructor
  · intro h
    simp only [tagRows, List.mem_cons, List.not_mem_nil, or_false, Prod.mk.injEq] at h
    rcases h with ⟨rfl, rfl, rfl⟩ | ⟨rfl, rfl, rfl⟩ | ⟨rfl, rfl, rfl⟩ | ⟨rfl, rfl, rfl⟩ <;> decide
  · rintro ⟨hkind, rfl, hn⟩
    have hrows : ∀ kind ∈ tagged,
        ∃ n, kind.fixedSides?.map Quantity.val = some n ∧ (kind.foldedTag, kind, n) ∈ tagRows := by
      simp only [tagged, List.forall_mem_cons]
      exact ⟨⟨8, by decide⟩, ⟨8, by decide⟩, ⟨3, by decide⟩, ⟨12, by decide⟩, by simp⟩
    obtain ⟨m, hm, hrow⟩ := hrows kind hkind
    cases hm.symm.trans hn
    exact hrow

/-- The rows are what the tags of the kinds and their fixed faces are. -/
theorem row_iff {w : List Char} {kind : DiceKind} {sides : Quantity} :
    (w, kind, sides.val) ∈ tagRows ↔
      kind ∈ tagged ∧ w = kind.foldedTag ∧ kind.fixedSides? = some sides := by
  rw [mem_tagRows_iff]
  refine and_congr_right fun _ => and_congr_right fun _ => ?_
  rw [Option.map_eq_some_iff]
  constructor
  · rintro ⟨found, hfound, hval⟩
    rw [hfound, Quantity.val_inj hval]
  · intro h
    exact ⟨sides, h, rfl⟩

theorem WrittenAs.mem {kind : DiceKind} {sides : Quantity} {w : List Char}
    (h : kind.WrittenAs sides w) :
    w ∈ Pattern.number.matches' ∨ w ∈ Pattern.namedSides.matches' := by
  cases h with
  | percent hsides => exact .inr (Pattern.mem_namedSides.mpr (.inl rfl))
  | number hsides => exact .inl hsides.mem_number
  | tag hrow =>
      obtain ⟨hkind, htag, -⟩ := row_iff.mp hrow
      exact .inr (Pattern.mem_namedSides.mpr (.inr ⟨kind, hkind, htag⟩))

end DiceKind

namespace Literal

variable {w text : List Char}

theorem readCount_eq_ok_iff {count : Quantity} :
    readCount w = .ok count ↔ w = [] ∧ count = .one ∨ count.WrittenAs w := by
  rw [Quantity.writtenAs_iff]
  refine ⟨readCount_cases, ?_⟩
  rintro (⟨rfl, rfl⟩ | ⟨n, hread, hsaturate⟩)
  · rfl
  · have hne := (Pattern.mem_number.mp (Numeral.read?_eq_some_iff.mp hread).1).1
    simp [readCount, hne, hread, hsaturate]

theorem readSides_eq_ok_iff {kind : DiceKind} {sides : Quantity} :
    readSides w = .ok (kind, sides) ↔ kind.WrittenAs sides w := by
  constructor
  · intro h
    rcases readSides_cases h with ⟨rfl, rfl, hsides⟩ | ⟨rfl, hnumber⟩ | htag
    · exact .percent hsides
    · exact .number (Quantity.writtenAs_iff.mpr hnumber)
    · exact .tag (DiceKind.row_iff.mpr htag)
  · intro h
    cases h with
    | percent hsides =>
        have hhundred : sides = ⟨100, by decide, by decide⟩ := Quantity.val_inj hsides
        rw [hhundred]
        rfl
    | number hsides =>
        obtain ⟨n, hread, hsaturate⟩ := Quantity.writtenAs_iff.mp hsides
        have hpercent : w ≠ ['%'] := by
          rintro rfl
          cases hread
        simp [readSides, hpercent, hread, hsaturate]
    | tag hrow =>
        obtain ⟨hkind, htag, hfixed⟩ := DiceKind.row_iff.mp hrow
        have htag? := DiceKind.ofTag?_eq_some_iff.mpr ⟨hkind, htag⟩
        obtain ⟨c, tail, rfl, hdigit, hpercent⟩ := DiceKind.head_of_tag hkind htag
        have hread : Numeral.read? (c :: tail) = none := by simp [Numeral.read?, hdigit]
        simp [readSides, hpercent, hread, htag?, hfixed]

theorem readMode?_eq_some_iff {c : Char} {mode : Selection.Mode} :
    readMode? c = some mode ↔ c.toLower = mode.letter := by
  unfold readMode?
  cases mode <;> split <;> simp_all [Selection.Mode.letter]

theorem readDirection?_eq_some_iff {c : Char} {direction : Selection.Direction} :
    readDirection? c = some direction ↔ c.toLower = direction.letter := by
  unfold readDirection?
  cases direction <;> split <;> simp_all [Selection.Direction.letter]

theorem defaultDirection_eq_iff {mode : Selection.Mode} {direction : Selection.Direction} :
    mode.defaultDirection = direction ↔
      mode = .keep ∧ direction = .high ∨ mode = .drop ∧ direction = .low := by
  cases mode <;> cases direction <;> decide

/-- What is split off as a direction is a letter, and nothing if there is none. -/
theorem splitDirection_cases (text : List Char) :
    splitDirection text = (none, text) ∨ ∃ d direction digits, text = d :: digits ∧
      d.toLower = direction.letter ∧ splitDirection text = (some direction, digits) := by
  cases text with
  | nil => exact .inl rfl
  | cons d digits =>
      rw [splitDirection]
      cases hd : readDirection? d with
      | none => exact .inl rfl
      | some direction =>
          exact .inr ⟨d, direction, digits, rfl, readDirection?_eq_some_iff.mp hd, rfl⟩

theorem readSelection?_eq_some_iff {s : Selection} :
    readSelection? w = some s ↔ s.WrittenAs w := by
  constructor
  · intro h
    cases w with
    | nil => cases h
    | cons c rest =>
        simp only [readSelection?, Option.bind_eq_bind, Option.bind_eq_some_iff] at h
        obtain ⟨mode, hmode, n, hread, amount, hsaturate, h⟩ := h
        cases h
        have hamount := Quantity.writtenAs_iff.mpr ⟨n, hread, hsaturate⟩
        have hletter := readMode?_eq_some_iff.mp hmode
        rcases splitDirection_cases rest with hsplit | ⟨d, direction, digits, rfl, hd, hsplit⟩
        · rw [hsplit] at hamount ⊢
          exact .undirected hletter (defaultDirection_eq_iff.mp rfl) hamount
        · rw [hsplit] at hamount ⊢
          exact .directed hletter hd hamount
  · intro h
    cases h with
    | @directed c d digits hmode hdirection hamount =>
        obtain ⟨n, hread, hsaturate⟩ := Quantity.writtenAs_iff.mp hamount
        have hd := readDirection?_eq_some_iff.mpr hdirection
        simp [readSelection?, splitDirection, readMode?_eq_some_iff.mpr hmode, hd, hread, hsaturate,
          Selection.of]
    | @undirected c digits hmode hdefault hamount =>
        obtain ⟨n, hread, hsaturate⟩ := Quantity.writtenAs_iff.mp hamount
        have hsplit := splitDirection_of_mem_number hamount.mem_number
        have hdirection := defaultDirection_eq_iff.mpr hdefault
        simp [readSelection?, readMode?_eq_some_iff.mpr hmode, hsplit, hread, hsaturate,
          Selection.of, hdirection]

theorem readSuffix_eq_ok_iff {selection? : Option Selection} :
    readSuffix w = .ok selection? ↔ w = [] ∧ selection? = none ∨
      ∃ s, selection? = some s ∧ s.WrittenAs w := by
  simp only [← readSelection?_eq_some_iff]
  cases w with
  | nil => simp [readSuffix, readSelection?, eq_comm]
  | cons c rest =>
      cases hread : readSelection? (c :: rest) with
      | none => simp [readSuffix, hread]
      | some s => simp [readSuffix, hread, eq_comm]

end Literal

/-! ## Reading a literal -/

/-- A selection is a letter, perhaps a direction, and digits. -/
theorem Selection.WrittenAs.exists_parts {s : Selection} {w : List Char} (h : s.WrittenAs w) :
    ∃ c direction digits, w = c :: direction ++ digits ∧ (Literal.readMode? c).isSome = true ∧
      (direction = [] ∨ ∃ d, direction = [d] ∧ (Literal.readDirection? d).isSome = true) ∧
      digits ∈ Pattern.number.matches' := by
  cases h with
  | @directed c d digits hmode hdirection hamount =>
      have hd : (Literal.readDirection? d).isSome = true := by
        rw [Literal.readDirection?_eq_some_iff.mpr hdirection, Option.isSome_some]
      refine ⟨c, [d], digits, rfl, ?_, .inr ⟨d, rfl, hd⟩, hamount.mem_number⟩
      rw [Literal.readMode?_eq_some_iff.mpr hmode, Option.isSome_some]
  | @undirected c digits hmode _ hamount =>
      refine ⟨c, [], digits, rfl, ?_, .inl rfl, hamount.mem_number⟩
      rw [Literal.readMode?_eq_some_iff.mpr hmode, Option.isSome_some]

/-- A selection starts with its letter, which is neither a digit nor `!`. -/
theorem Selection.WrittenAs.head {s : Selection} {w : List Char} (h : s.WrittenAs w) :
    ∀ c ∈ w.head?, c.isDigit = false ∧ c ≠ '!' := by
  obtain ⟨c, direction, digits, rfl, hmode, -, -⟩ := h.exists_parts
  simpa using Literal.of_isSome_readMode? (p := fun c => !c.isDigit && c != '!') (by decide) hmode

namespace Literal

theorem splitBang_eq_append (text : List Char) :
    text = (if (splitBang text).1 then ['!'] else []) ++ (splitBang text).2 := by
  cases text with
  | nil => rfl
  | cons c rest =>
      by_cases hc : c = '!'
      · rw [hc]
        rfl
      · simp [splitBang, hc]

end Literal

namespace Lexeme.DiceParts.Spells

variable {parts : DiceParts} {dice : Dice}

theorem count_isDigit (h : parts.Spells dice) : ∀ c ∈ parts.count, c.isDigit = true := by
  rcases h.count with ⟨hnil, -⟩ | hcount
  · simp [hnil]
  · exact hcount.digits

theorem head_selection (h : parts.Spells dice) :
    ∀ c ∈ parts.selection.head?, c.isDigit = false ∧ c ≠ '!' := by
  rcases h.selection with ⟨hnil, -⟩ | ⟨s, -, hs⟩
  · simp [hnil]
  · exact hs.head

theorem splitBang (h : parts.Spells dice) :
    Literal.splitBang (parts.bang ++ parts.selection) = (dice.explode, parts.selection) := by
  rw [h.bang]
  cases dice.explode with
  | true => rfl
  | false =>
      cases hselection : parts.selection with
      | nil => rfl
      | cons c rest =>
          have hc := (h.head_selection c (by simp [hselection])).2
          simp [Literal.splitBang, hc]

theorem splitSides (h : parts.Spells dice) :
    Literal.splitSides (parts.sides ++ (parts.bang ++ parts.selection)) =
      (parts.sides, parts.bang ++ parts.selection) := by
  apply Literal.splitSides_append h.sides.mem
  rw [h.bang]
  cases dice.explode with
  | true => simp
  | false => exact fun c hc => (h.head_selection c hc).1

end Lexeme.DiceParts.Spells

namespace Literal

open Lexeme

variable {text : List Char} {dice : Dice}

/-- **A text is read as a group exactly if it is made of parts that spell the group.** -/
theorem readDice_eq_ok_iff_spells :
    readDice text = .ok dice ↔ ∃ parts : DiceParts, parts.text = text ∧ parts.Spells dice := by
  rw [readDice_eq_ok_iff]
  constructor
  · rintro ⟨front, d, rest, rfl, -, hd, hcount, hsides, hexplode, hselection⟩
    refine ⟨⟨front, d, (splitSides rest).1, if dice.explode then ['!'] else [],
      (splitBang (splitSides rest).2).2⟩, ?_, readCount_eq_ok_iff.mp hcount,
      by simpa [isDelimiter] using hd, readSides_eq_ok_iff.mp hsides, rfl,
      readSuffix_eq_ok_iff.mp hselection⟩
    rw [← hexplode]
    show front ++ d :: (splitSides rest).1 ++ _ ++ _ = front ++ d :: rest
    rw [List.append_assoc _ _ (splitBang _).2, ← splitBang_eq_append, List.append_assoc,
      List.cons_append, splitSides_eq_append]
  · rintro ⟨parts, rfl, h⟩
    refine ⟨parts.count, parts.delimiter, parts.sides ++ (parts.bang ++ parts.selection), ?_, ?_,
      ?_, readCount_eq_ok_iff.mpr h.count, ?_, ?_, ?_⟩
    · simp [DiceParts.text]
    · exact fun c hc => not_isDelimiter_of_isDigit (h.count_isDigit c hc)
    · simpa [isDelimiter] using h.delimiter
    · rw [h.splitSides, readSides_eq_ok_iff.mpr h.sides]
    · rw [h.splitSides, h.splitBang]
    · rw [h.splitSides, h.splitBang, readSuffix_eq_ok_iff.mpr h.selection]

end Literal

end DiceNotation
