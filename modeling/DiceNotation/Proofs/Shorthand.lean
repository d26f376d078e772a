import DiceNotation.Proofs.FactionWords
import DiceNotation.Proofs.ScanAppend
import DiceNotation.Session

/-!
# Shorthand

A game system expands its shorthand in the text of an expression, before this is cut into lexemes.
No expression that can be cut is changed by that: each `d` in a lexeme stands before a digit, `%` or
one of five letters, and no alias goes on with one of these. And an expression in which literals are
given in the shorthand of the system is expanded to the expression itself.
-/

namespace DiceNotation

open Alias

/-! ## Canonical texts -/

namespace Alias

/-- What may stand behind a `d` of a lexeme, in lower case. -/
def followers : List Char :=
  ['0', '1', '2', '3', '4', '5', '6', '7', '8', '9', '%', 'h', 'f', 'm', 'l', 'e']

/-- Behind each `d` stands one of the followers. -/
def Canonical (text : List Char) : Prop :=
  Guarded (followers.contains ·) (text.map foldCase)

theorem of_followers {p : Char → Bool} (hp : followers.all p = true) (c : Char)
    (h : followers.contains c = true) : p c = true :=
  List.all_eq_true.mp hp c (List.contains_iff_mem.mp h)

theorem contains_followers_of_isDigit {c : Char} (h : c.isDigit = true) :
    followers.contains (foldCase c) = true := by
  rw [foldCase_of_isDigit h]
  exact of_isDigit (p := (followers.contains ·)) (by decide) h

theorem Canonical.append {u v : List Char} (hu : Canonical u) (hv : Canonical v) :
    Canonical (u ++ v) := by
  unfold Canonical
  rw [List.map_append]
  exact Guarded.append hu hv

theorem canonical_of_not_isDelimiter {w : List Char} (h : ∀ c ∈ w, isDelimiter c = false) :
    Canonical w := by
  apply guarded_of_not_mem
  intro hd
  obtain ⟨c, hc, hfold⟩ := List.mem_map.mp hd
  have hdelimiter := isDelimiter_of_foldCase hfold
  rw [h c hc] at hdelimiter
  cases hdelimiter

end Alias

/-! ## Lexemes -/

namespace Lexeme

open DiceParts

variable {kind : Kind} {w : List Char}

theorem canonical_of_isDigit (hw : ∀ c ∈ w, c.isDigit = true) : Canonical w :=
  canonical_of_not_isDelimiter fun c hc => not_isDelimiter_of_isDigit (hw c hc)

/-- Tags are canonical, and one of the followers is their first letter. -/
theorem canonical_of_tag {kind : DiceKind} (hkind : kind ∈ DiceKind.tagged)
    (hw : w.map Char.toLower = kind.foldedTag) :
    Canonical w ∧ ∃ next ∈ (w.map foldCase).head?, followers.contains next = true := by
  have hfold : w.map foldCase = kind.foldedTag := by
    rw [← hw]
    apply List.map_congr_left
    intro c hc
    exact foldCase_of_isAlpha (DiceKind.isAlpha_of_tag hkind hw c hc)
  have htags : ∀ kind ∈ DiceKind.tagged, Guarded (followers.contains ·) kind.foldedTag ∧
      ∃ next ∈ kind.foldedTag.head?, followers.contains next = true := by
    simp [DiceKind.tagged, DiceKind.foldedTag, DiceKind.tag, Guarded, followers]
  unfold Canonical
  rw [hfold]
  exact htags kind hkind

theorem canonical_of_sides (hw : w ∈ Pattern.sides.matches') :
    Canonical w ∧ ∃ next ∈ (w.map foldCase).head?, followers.contains next = true := by
  rcases Pattern.mem_sides.mp hw with hpositive | hnamed
  · have hcanonical := canonical_of_isDigit (Pattern.isDigit_of_mem_positive hpositive)
    obtain ⟨c, digits, rfl, ⟨hc, -⟩, -⟩ := Pattern.mem_positive.mp hpositive
    exact ⟨hcanonical, foldCase c, rfl, contains_followers_of_isDigit hc⟩
  · rcases Pattern.mem_namedSides.mp hnamed with rfl | ⟨kind, hkind, htag⟩
    · refine ⟨canonical_of_not_isDelimiter (by simp [isDelimiter]), '%', rfl, by decide⟩
    · exact canonical_of_tag hkind htag

theorem canonical_of_selection (hw : w ∈ Pattern.selection.matches') : Canonical w := by
  obtain ⟨c, direction, digits, rfl, -, hdirection, hdigits⟩ := Pattern.mem_selection.mp hw
  have hrest : Canonical digits := canonical_of_isDigit (Pattern.isDigit_of_mem_positive hdigits)
  rcases hdirection with rfl | ⟨d, rfl, hd⟩
  · obtain ⟨e, tail, rfl, ⟨he, -⟩, -⟩ := Pattern.mem_positive.mp hdigits
    exact ⟨fun _ => ⟨foldCase e, rfl, contains_followers_of_isDigit he⟩, hrest⟩
  · have hletters : ['h', 'H', 'l', 'L'].all
        (fun c => followers.contains (foldCase c) && !isDelimiter c) = true := by decide
    have hletter := List.all_eq_true.mp hletters d (Literal.isSome_readDirection?_iff.mp hd)
    obtain ⟨hfollows, hdelimiter⟩ := (Bool.and_eq_true _ _).mp hletter
    have hdirection : Canonical [d] := canonical_of_not_isDelimiter (by simpa using hdelimiter)
    exact ⟨fun _ => ⟨foldCase d, rfl, hfollows⟩, hdirection.append hrest⟩

theorem DiceParts.WellFormed.canonical {parts : DiceParts} (h : parts.WellFormed) :
    Canonical parts.text := by
  obtain ⟨hsides, next, hnext, hfollows⟩ := canonical_of_sides h.sides
  have hcount : Canonical parts.count := by
    rcases h.count with hnil | hpositive
    · rw [hnil]
      trivial
    · exact canonical_of_isDigit (Pattern.isDigit_of_mem_positive hpositive)
  have hbang : Canonical parts.bang := by
    rcases h.bang with hnil | hbang
    · rw [hnil]
      trivial
    · rw [hbang]
      exact canonical_of_not_isDelimiter (by simp [isDelimiter])
  have hselection : Canonical parts.selection := by
    rcases h.selection with hnil | hselection
    · rw [hnil]
      trivial
    · exact canonical_of_selection hselection
  have hfaces : Canonical (parts.delimiter :: parts.sides) :=
    ⟨fun _ => ⟨next, hnext, hfollows⟩, hsides⟩
  exact ((hcount.append hfaces).append hbang).append hselection

/-- Every lexeme is canonical. -/
theorem Kind.Matches.canonical (hw : kind.Matches w) : Canonical w := by
  by_cases hkind : kind = .dice
  · rw [hkind] at hw
    obtain ⟨parts, hparts, rfl⟩ := DiceParts.mem_dice_iff.mp hw
    exact hparts.canonical
  · exact canonical_of_not_isDelimiter (not_isDelimiter_of_matches hkind hw)

/-- A lexeme starts with a letter or a digit, or with a character that does not go on with a literal
in front of it. -/
theorem Kind.Matches.head {c : Char} (hw : kind.Matches (c :: w)) :
    c.isAlphanum = true ∨ continuesDie c = false := by
  have hdigit : c.isDigit = true → c.isAlphanum = true := by
    intro h
    rw [Char.isAlphanum, h, Bool.or_true]
  cases kind with
  | dice =>
      obtain ⟨parts, hparts, htext⟩ := DiceParts.mem_dice_iff.mp hw
      left
      rcases hparts.count with hnil | hpositive
      · have hdelimiter := hparts.delimiter
        rw [DiceParts.text, hnil] at htext
        obtain rfl := (List.cons.inj htext).1
        exact of_isDelimiter (p := Char.isAlphanum) (by decide) hdelimiter
      · obtain ⟨d, digits, hcount, ⟨hd, -⟩, -⟩ := Pattern.mem_positive.mp hpositive
        rw [DiceParts.text, hcount] at htext
        obtain rfl := (List.cons.inj htext).1
        exact hdigit hd
  | unknown => exact absurd hw not_matches_unknown
  | blank =>
      have hseparators : [' ', '\t', '\n', '\r', '\x0c'].all (!continuesDie ·) = true := by decide
      have hc : c ∈ [' ', '\t', '\n', '\r', '\x0c'] := by
        simpa [isSeparator, or_assoc] using isSeparator_of_matches_blank hw c List.mem_cons_self
      right
      simpa using List.all_eq_true.mp hseparators c hc
  | number => exact .inl (hdigit ((Pattern.mem_number.mp hw).2 c List.mem_cons_self))
  | operator op =>
      cases Pattern.mem_char.mp hw
      right
      cases op <;> decide
  | leftParen =>
      cases Pattern.mem_char.mp hw
      exact .inr (by decide)
  | rightParen =>
      cases Pattern.mem_char.mp hw
      exact .inr (by decide)

theorem Lexes.forall_matches {text stop : List Char} {words : List (List Char)}
    {tokens : List Token} (h : Lexes text words tokens stop) :
    ∀ w ∈ words, w ≠ [] ∧ ∃ kind : Kind, kind.Matches w := by
  induction h with
  | stop text => simp
  | @next kind word rest stop token? words tokens hlongest hstands hrest ih =>
      exact List.forall_mem_cons.mpr ⟨⟨hlongest.ne_nil, kind, hlongest.matched⟩, ih⟩

end Lexeme

/-! ## Systems -/

namespace GameSystem

variable {system : GameSystem} {next? : Option Char} {piece full word : List Char}

/-- Where the piece stands before `next?`, the system writes `full` for it and goes on behind it. -/
def Writes (system : GameSystem) (next? : Option Char) (piece full : List Char) : Prop :=
  ∀ rest, rest.head? = next? →
    (system.expandChars (piece ++ rest)).1 = full ++ (system.expandChars rest).1

theorem inert_bareDie (tag : List Char) (h : Canonical piece) : Inert (bareDie tag) piece := by
  apply (spares_bareDie tag).inert
  exact h.mono (of_followers (by decide))

theorem inert_word {letter : Char} (hletter : followers.all (· != letter) = true)
    (letters replacement : List Char) (h : Canonical piece) :
    Inert (Alias.word ('d' :: letter :: letters) replacement) piece := by
  apply (spares_word letter letters replacement).inert
  exact h.mono (of_followers hletter)

/-- A canonical piece is copied by every system. -/
theorem writes_of_canonical (system : GameSystem) (next? : Option Char) (h : Canonical piece) :
    system.Writes next? piece piece := by
  intro rest _
  cases system with
  | standard => rfl
  | duality => exact inert_bareDie _ h rest
  | fudge => exact inert_bareDie _ h rest
  | faction =>
      rw [expandChars_faction, inert_word (by decide) _ _ h, inert_word (by decide) _ _ h]
      rfl

/-- The shorthand for a word that stands before `next?`. The tag of a duality or fudge die is left
out if the word ends with it and the text does not go on with a letter, a digit or `%`. Of the tag
of a faction die three letters are left out. -/
inductive Abbreviates : GameSystem → List Char → Option Char → List Char → Prop
  | duality {count : List Char} {next? : Option Char} (hcount : ∀ c ∈ count, c.isDigit = true)
      (hnext : ∀ c ∈ next?, c.isAlphanum = false ∧ c ≠ '%') :
      Abbreviates .duality (count ++ ['d', 'h']) next? (count ++ ['d'])
  | fudge {count : List Char} {next? : Option Char} (hcount : ∀ c ∈ count, c.isDigit = true)
      (hnext : ∀ c ∈ next?, c.isAlphanum = false ∧ c ≠ '%') :
      Abbreviates .fudge (count ++ ['d', 'F']) next? (count ++ ['d'])
  | attack (front behind : List Char) (next? : Option Char) :
      Abbreviates .faction (front ++ ['d', 'M', 'c', 'p', 'A', 't', 'k'] ++ behind) next?
        (front ++ ['d', 'A', 't', 'k'] ++ behind)
  | defense (front behind : List Char) (next? : Option Char) :
      Abbreviates .faction (front ++ ['d', 'M', 'c', 'p', 'D', 'e', 'f'] ++ behind) next?
        (front ++ ['d', 'D', 'e', 'f'] ++ behind)

/-- The words, each of them as it is or in shorthand. -/
inductive Shortened (system : GameSystem) : List (List Char) → List Char → Prop
  | nil : Shortened system [] []
  | keep {word : List Char} {words : List (List Char)} {short : List Char}
      (hrest : Shortened system words short) : Shortened system (word :: words) (word ++ short)
  | shorten {word : List Char} {words : List (List Char)} {piece short : List Char}
      (hpiece : Abbreviates system word words.flatten.head? piece)
      (hrest : Shortened system words short) : Shortened system (word :: words) (piece ++ short)

theorem writes_bareDie {count tag rest : List Char} (hcount : ∀ c ∈ count, c.isDigit = true)
    (hrest : ∀ c ∈ rest.head?, continuesDie c = false) :
    (replaceAll (bareDie tag) (count ++ ['d'] ++ rest)).1 =
      count ++ 'd' :: tag ++ (replaceAll (bareDie tag) rest).1 := by
  have hinert := inert_bareDie tag (Lexeme.canonical_of_isDigit hcount)
  rw [List.append_assoc, hinert, List.singleton_append, replaceAll_bareDie tag (by decide) hrest]
  simp

/-- What stands in front of a `d` is canonical by itself. -/
theorem canonical_around {front tag behind : List Char}
    (h : Canonical (front ++ 'd' :: tag ++ behind)) : Canonical front ∧ Canonical behind := by
  unfold Canonical at h ⊢
  rw [List.map_append] at h
  refine ⟨?_, h.of_append⟩
  rw [List.map_append, List.append_assoc] at h
  exact Guarded.of_append_cons h (by decide)

/-- A word of faction dice between two pieces that are copied. -/
theorem writes_of_isWord {front behind : List Char} (hpiece : IsWord piece full)
    (hfront : Canonical front) (hbehind : Canonical behind) :
    faction.Writes next? (front ++ piece ++ behind) (front ++ full ++ behind) := by
  intro rest _
  rw [List.append_assoc, List.append_assoc, writes_of_canonical faction _ hfront _ rfl,
    expandChars_of_isWord hpiece, writes_of_canonical faction _ hbehind _ rfl]
  simp only [List.append_assoc]

theorem Abbreviates.writes (h : Abbreviates system word next? piece) (hword : Canonical word)
    (hplain : ∀ c ∈ next?, c.isAlphanum = true ∨ continuesDie c = false) :
    system.Writes next? piece word := by
  intro rest hrest
  have hends : (∀ c ∈ next?, c.isAlphanum = false ∧ c ≠ '%') →
      ∀ c ∈ rest.head?, continuesDie c = false := by
    intro hnext c hc
    rw [hrest] at hc
    refine (hplain c hc).resolve_left ?_
    rw [(hnext c hc).1]
    exact Bool.false_ne_true
  cases h with
  | duality hcount hnext => exact writes_bareDie hcount (hends hnext)
  | fudge hcount hnext => exact writes_bareDie hcount (hends hnext)
  | attack front behind =>
      have hpiece : IsWord ['d', 'A', 't', 'k'] ['d', 'M', 'c', 'p', 'A', 't', 'k'] :=
        .inl ⟨by decide, rfl⟩
      obtain ⟨hfront, hbehind⟩ := canonical_around hword
      exact writes_of_isWord hpiece hfront hbehind rest hrest
  | defense front behind =>
      have hpiece : IsWord ['d', 'D', 'e', 'f'] ['d', 'M', 'c', 'p', 'D', 'e', 'f'] :=
        .inr ⟨by decide, rfl⟩
      obtain ⟨hfront, hbehind⟩ := canonical_around hword
      exact writes_of_isWord hpiece hfront hbehind rest hrest

/-- A word and its shorthand start alike. -/
theorem Abbreviates.exists_front (h : Abbreviates system word next? piece) :
    ∃ front tag tag', piece = front ++ 'd' :: tag ∧ word = front ++ 'd' :: tag' := by
  cases h with
  | @duality count _ hcount hnext => exact ⟨count, [], ['h'], rfl, rfl⟩
  | @fudge count _ hcount hnext => exact ⟨count, [], ['F'], rfl, rfl⟩
  | attack front behind => exact ⟨front, _, _, List.append_assoc _ _ _, List.append_assoc _ _ _⟩
  | defense front behind => exact ⟨front, _, _, List.append_assoc _ _ _, List.append_assoc _ _ _⟩

theorem Shortened.head?_eq {words : List (List Char)} {short : List Char}
    (h : Shortened system words short) : short.head? = words.flatten.head? := by
  induction h with
  | nil => rfl
  | keep hrest ih => rw [List.flatten_cons, List.head?_append, List.head?_append, ih]
  | shorten hpiece hrest ih =>
      obtain ⟨front, tag, tag', rfl, rfl⟩ := hpiece.exists_front
      cases front <;> rfl

theorem Shortened.refl (system : GameSystem) (words : List (List Char)) :
    Shortened system words words.flatten := by
  induction words with
  | nil => exact .nil
  | cons word words ih => exact .keep ih

/-- Word by word, the system writes what the shorthand stands for. -/
theorem Shortened.expand {words : List (List Char)} {short : List Char}
    (h : Shortened system words short)
    (hwords : ∀ w ∈ words, w ≠ [] ∧ ∃ kind : Lexeme.Kind, kind.Matches w) :
    (system.expandChars short).1 = words.flatten := by
  induction h with
  | nil => exact system.expandChars_nil
  | @keep word words short hrest ih =>
      obtain ⟨⟨-, kind, hkind⟩, hothers⟩ := List.forall_mem_cons.mp hwords
      rw [writes_of_canonical system short.head? hkind.canonical short rfl, ih hothers,
        List.flatten_cons]
  | @shorten word words piece short hpiece hrest ih =>
      obtain ⟨⟨-, kind, hkind⟩, hothers⟩ := List.forall_mem_cons.mp hwords
      have hplain : ∀ c ∈ words.flatten.head?, c.isAlphanum = true ∨ continuesDie c = false := by
        intro c hc
        cases words with
        | nil => cases hc
        | cons next words =>
            obtain ⟨hne, kind, hkind⟩ := hothers next List.mem_cons_self
            obtain ⟨d, tail, rfl⟩ := List.exists_cons_of_ne_nil hne
            obtain rfl : d = c := Option.some_inj.mp hc
            exact hkind.head
      rw [hpiece.writes hkind.canonical hplain short hrest.head?_eq, ih hothers, List.flatten_cons]

/-- **Canonical notation is left alone, and shorthand is expanded to it.** No system changes a text
that can be cut into tokens, so its rolls do not depend on the system. And from the words of such a
text with any of them in the system's shorthand, the system makes the text. -/
theorem expand_of_scan {text : String} {tokens : List Token} (h : Token.scan text = .ok tokens)
    (system : GameSystem) :
    system.expand text = text ∧
    (∀ {σ : Type} (table : Table) (source : Source σ) (state : σ),
      Session.roll table source ⟨system, state⟩ text =
        ((table.roll source text state).1, ⟨system, (table.roll source text state).2⟩)) ∧
    ∀ words, Lexeme.Lexes text.toList words tokens [] → ∀ short, Shortened system words short →
      system.expand (String.ofList short) = text := by
  have hshort : ∀ words, Lexeme.Lexes text.toList words tokens [] → ∀ short,
      Shortened system words short → system.expand (String.ofList short) = text := by
    intro words hlexes short hshort
    have hflatten : words.flatten = text.toList := by simpa using hlexes.flatten_append
    rw [expand, String.toList_ofList, hshort.expand hlexes.forall_matches, hflatten,
      String.ofList_toList]
  have hsame : system.expand text = text := by
    obtain ⟨words, hlexes⟩ := Token.scanFrom_eq_ok_iff.mp h
    have hflatten : words.flatten = text.toList := by simpa using hlexes.flatten_append
    have hwhole := hshort words hlexes words.flatten (.refl system words)
    rwa [hflatten, String.ofList_toList] at hwhole
  refine ⟨hsame, ?_, hshort⟩
  intro σ table source state
  show Session.play _ (table.roll source (system.expand text)) = _
  rw [hsame]
  rfl

/-- `(2d)` is the shorthand of `(2dh)` at a table that plays with duality dice. -/
theorem expand_of_scan_duality :
    duality.expand "(2dh)" = "(2dh)" ∧ duality.expand "(2d)" = "(2dh)" := by
  have hscan : Token.scan "(2dh)" = .ok [.leftParen,
      .dice ⟨"2dh", .plain ⟨2, by decide, by decide⟩ ⟨12, by decide, by decide⟩ .duality⟩,
      .rightParen] := by
    decide +kernel
  have hfirst : Lexeme.DiceParts.first? (['2', 'd', 'h'] ++ [')']) =
      some ⟨['2'], 'd', ['h'], [], []⟩ := rfl
  have hlongest : Lexeme.IsLongest (['2', 'd', 'h'] ++ [')']) .dice ['2', 'd', 'h'] :=
    Lexeme.isLongest_dice hfirst
  have hwhole : ¬ Lexeme.BreaksOff ['2', 'd', 'h'] [')'] := by
    rintro ⟨-, ⟨c, hc, hhead⟩, -⟩
    obtain rfl : ')' = c := Option.some_inj.mp hhead
    simp at hc
  have hlexes := Lexeme.Lexes.leftParen
    (.next hlongest (.dice hwhole (by rfl)) (Lexeme.Lexes.rightParen (.stop [])))
  have hpiece : Abbreviates duality (['2'] ++ ['d', 'h']) [[')']].flatten.head? (['2'] ++ ['d']) :=
    .duality (by simp) (by simp)
  have hshort : Shortened duality [['('], ['2', 'd', 'h'], [')']] ['(', '2', 'd', ')'] :=
    .keep (.shorten hpiece (.refl duality [[')']]))
  obtain ⟨hsame, -, hexpand⟩ := expand_of_scan hscan duality
  exact ⟨hsame, hexpand _ hlexes _ hshort⟩

example : faction.expand "dAtk - 2dDef" = "dMcpAtk - 2dMcpDef" := by decide +kernel

end GameSystem

end DiceNotation
