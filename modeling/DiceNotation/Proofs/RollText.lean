import DiceNotation.Proofs.DroppedDraws
import DiceNotation.Proofs.ScanAppend
import DiceNotation.Proofs.WrittenNumbers

/-!
# The text of a roll

The label, the draws, which of them are dropped, and the total can be read off the text of a roll.
The label of a text that has been rolled has no bracket in it, so the brackets are those of the
list, and neither a bracket nor a comma, a tilde or a space is part of a number.
-/

namespace DiceNotation

/-! ## Reading numbers -/

namespace Numeral

/-- The value of a numeral that may have a minus sign. -/
def readInt64? : List Char → Option Int64
  | '-' :: digits => (read? digits).map fun n => Int64.ofInt (-n)
  | digits => (read? digits).map fun n => Int64.ofInt n

theorem ne_minus_of_mem_ofNat {n : Nat} {c : Char} (h : c ∈ ofNat n) : c ≠ '-' := by
  rintro rfl
  exact absurd (List.all_eq_true.mp (all_isDigit_ofNat n) '-' h) (by decide)

theorem readInt64?_ofInt64 (value : Int64) : readInt64? (ofInt64 value) = some value := by
  have hback := Int64.ofInt_toInt value
  unfold ofInt64
  cases hvalue : value.toInt with
  | ofNat n =>
      rw [hvalue] at hback
      have hplain : readInt64? (ofNat n) = (read? (ofNat n)).map fun n => Int64.ofInt n := by
        unfold readInt64?
        split
        next digits hdigits =>
          have hmem : '-' ∈ ofNat n := hdigits ▸ List.mem_cons_self
          exact absurd rfl (ne_minus_of_mem_ofNat hmem)
        next => rfl
      show readInt64? (ofNat n) = some value
      rw [hplain, read?_ofNat]
      exact congrArg some hback
  | negSucc n =>
      rw [hvalue] at hback
      rw [ofInt, readInt64?, read?_ofNat]
      exact congrArg some hback

/-- The characters of numbers. -/
def isNumberChar (c : Char) : Bool :=
  c.isDigit || c == '-'

theorem isNumberChar_of_mem {value : Int64} : ∀ c ∈ ofInt64 value, isNumberChar c = true := by
  have hdigits : ∀ n, ∀ c ∈ ofNat n, isNumberChar c = true := by
    intro n c hc
    simp [isNumberChar, List.all_eq_true.mp (all_isDigit_ofNat n) c hc]
  unfold ofInt64
  cases value.toInt with
  | ofNat n => exact hdigits n
  | negSucc n => exact List.forall_mem_cons.mpr ⟨rfl, hdigits (n + 1)⟩

theorem not_mem_ofInt64 {c : Char} (hc : isNumberChar c = false) (value : Int64) :
    c ∉ ofInt64 value := by
  intro hmem
  simp [isNumberChar_of_mem c hmem] at hc

end Numeral

/-! ## Reading rolls -/

/-- The text up to a character, and the text behind it. -/
def cutAt (c : Char) (text : List Char) : List Char × List Char :=
  (text.takeWhile (· != c), (text.dropWhile (· != c)).tail)

theorem bne_of_not_mem {c : Char} {text : List Char} (h : c ∉ text) :
    ∀ d ∈ text, (d != c) = true := by
  intro d hd
  exact bne_iff_ne.mpr fun heq => h (heq ▸ hd)

theorem cutAt_append {c : Char} {front : List Char} (h : c ∉ front) (behind : List Char) :
    cutAt c (front ++ c :: behind) = (front, behind) := by
  have hfront := bne_of_not_mem h
  rw [cutAt, List.takeWhile_append_of_pos hfront, List.dropWhile_append_of_pos hfront,
    List.takeWhile_cons_of_neg (by simp), List.dropWhile_cons_of_neg (by simp), List.append_nil,
    List.tail_cons]

theorem cutAt_of_not_mem {c : Char} {text : List Char} (h : c ∉ text) :
    cutAt c text = (text, []) := by
  have hdrop : text.dropWhile (· != c) = [] := List.dropWhile_eq_nil_iff.mpr (bne_of_not_mem h)
  rw [cutAt, List.takeWhile_eq_self_iff.mpr (bne_of_not_mem h), hdrop, List.tail_nil]

theorem not_mem_intercalate {c : Char} {separator : List Char} {items : List (List Char)}
    (hseparator : c ∉ separator) (hitems : ∀ item ∈ items, c ∉ item) :
    c ∉ separator.intercalate items := by
  induction items with
  | nil => simp
  | cons item items ih =>
      obtain ⟨hitem, hitems⟩ := List.forall_mem_cons.mp hitems
      cases items with
      | nil => simpa using hitem
      | cons next others =>
          rw [List.intercalate_cons_cons, List.mem_append, List.mem_append]
          rintro ((h | h) | h)
          · exact hitem h
          · exact hseparator h
          · exact ih hitems h

/-- The spaces behind the commas are left out. -/
theorem filter_intercalate {items : List (List Char)} (h : ∀ item ∈ items, ' ' ∉ item) :
    ([',', ' '].intercalate items).filter (· != ' ') = [','].intercalate items := by
  induction items with
  | nil => rfl
  | cons item items ih =>
      obtain ⟨hitem, hitems⟩ := List.forall_mem_cons.mp h
      have hkept : item.filter (· != ' ') = item := List.filter_eq_self.mpr (bne_of_not_mem hitem)
      cases items with
      | nil => simpa using hkept
      | cons next others =>
          rw [List.intercalate_cons_cons, List.intercalate_cons_cons, List.filter_append,
            List.filter_append, hkept, ih hitems]
          rfl

namespace ShownDraw

def read? (text : List Char) : Option ShownDraw :=
  (Numeral.readInt64? (text.filter (· != '~'))).map (⟨·, text.head? == some '~'⟩)

/-- Reads draws with commas between them. -/
def readAll? (text : List Char) : Option (List ShownDraw) :=
  let items := text.filter (· != ' ')
  if items.isEmpty then some [] else (items.splitOn ',').mapM read?

theorem toList_render (draw : ShownDraw) : draw.render.toList =
    if draw.struck then '~' :: Numeral.ofInt64 draw.value ++ ['~']
    else Numeral.ofInt64 draw.value := by
  unfold render
  split <;> simp [*]

theorem read?_render (draw : ShownDraw) : read? draw.render.toList = some draw := by
  obtain ⟨value, struck⟩ := draw
  have htilde : '~' ∉ Numeral.ofInt64 value := Numeral.not_mem_ofInt64 rfl value
  have hkept : (Numeral.ofInt64 value).filter (· != '~') = Numeral.ofInt64 value :=
    List.filter_eq_self.mpr (bne_of_not_mem htilde)
  have hread := Numeral.readInt64?_ofInt64 value
  rw [toList_render]
  cases struck with
  | true => simp [read?, hkept, hread]
  | false =>
      have hhead : (Numeral.ofInt64 value).head? ≠ some '~' := fun h =>
        htilde (List.mem_of_mem_head? h)
      simp [read?, hkept, hread, hhead]

theorem not_mem_render {c : Char} (hc : Numeral.isNumberChar c = false) (hne : c ≠ '~')
    (draw : ShownDraw) : c ∉ draw.render.toList := by
  have hnumber := Numeral.not_mem_ofInt64 hc draw.value
  rw [toList_render]
  split <;> simp [hnumber, hne]

variable {draws : List ShownDraw}

theorem mapM_read? (draws : List ShownDraw) :
    ((draws.map render).map String.toList).mapM read? = some draws := by
  induction draws with
  | nil => rfl
  | cons draw draws ih =>
      rw [List.map_cons, List.map_cons, List.mapM_cons, read?_render, ih]
      rfl

/-- A character that is no part of a number and no tilde is in no draw. -/
theorem not_mem_texts {c : Char} (hc : Numeral.isNumberChar c = false) (hne : c ≠ '~') :
    ∀ text ∈ (draws.map render).map String.toList, c ∉ text := by
  intro text htext
  obtain ⟨_, hrender, rfl⟩ := List.mem_map.mp htext
  obtain ⟨draw, -, rfl⟩ := List.mem_map.mp hrender
  exact not_mem_render hc hne draw

theorem splitOn_texts (hdraws : draws ≠ []) :
    ([','].intercalate ((draws.map render).map String.toList)).splitOn ',' =
      (draws.map render).map String.toList :=
  List.splitOn_intercalate ',' (not_mem_texts rfl (by decide)) (by simpa using hdraws)

theorem readAll?_intercalate (draws : List ShownDraw) :
    readAll? (", ".intercalate (draws.map render)).toList = some draws := by
  have hspace : ∀ text ∈ (draws.map render).map String.toList, ' ' ∉ text :=
    not_mem_texts rfl (by decide)
  have hcomma : ", ".toList = [',', ' '] := rfl
  rw [readAll?, String.toList_intercalate, hcomma, filter_intercalate hspace]
  cases draws with
  | nil => rfl
  | cons draw draws =>
      have hsplit := splitOn_texts (List.cons_ne_nil draw draws)
      have hne : [','].intercalate (((draw :: draws).map render).map String.toList) ≠ [] := by
        -- the empty text is split into one empty draw, which is the text of none
        intro hnil
        rw [hnil] at hsplit
        have hread := read?_render draw
        rw [← (List.cons.inj hsplit).1] at hread
        cases hread
      rw [if_neg (List.isEmpty_iff.not.mpr hne), hsplit]
      exact mapM_read? _

end ShownDraw

namespace Roll

/-- What the text of a roll shows of it. -/
structure Shown where
  label : String
  draws : List Int64
  dropped : List Nat
  total : Int64
deriving DecidableEq

def shown (roll : Roll) : Shown :=
  ⟨roll.label, roll.draws, roll.dropped, roll.total⟩

/-- Reads the label up to the first bracket, the draws up to the second, and the total behind the
equals sign up to the next space. -/
def Shown.read? (text : String) : Option Shown := do
  let (front, rest) := cutAt '[' text.toList
  let (list, behind) := cutAt ']' rest
  let draws ← ShownDraw.readAll? list
  let total ← Numeral.readInt64? (cutAt ' ' (behind.drop 3)).1
  return {
    label := String.ofList front.dropLast
    draws := draws.map ShownDraw.value
    dropped := draws.findIdxs ShownDraw.struck
    total
  }

/-- Each detail has a space in front, so the total ends at a space or with the text. -/
theorem cutAt_total (total : Int64) (details : List Detail) :
    (cutAt ' ' (Numeral.ofInt64 total ++
      (String.join (details.map fun detail => " " ++ detail.reading.render)).toList)).1 =
        Numeral.ofInt64 total := by
  have htotal := Numeral.not_mem_ofInt64 (c := ' ') rfl total
  cases details with
  | nil => simp [cutAt_of_not_mem htotal]
  | cons detail details =>
      rw [List.map_cons, String.join_cons, String.toList_append, String.toList_append]
      exact congrArg Prod.fst (cutAt_append htotal _)

variable {roll : Roll}

theorem value_shownDraws : roll.shownDraws.map ShownDraw.value = roll.draws := by
  apply List.ext_getElem
  · simp [shownDraws]
  · intro i hi hi'
    simp [shownDraws]

theorem findIdxs_shownDraws (hsorted : roll.dropped.Pairwise (· < ·))
    (hlt : ∀ i ∈ roll.dropped, i < roll.draws.length) :
    roll.shownDraws.findIdxs ShownDraw.struck = roll.dropped := by
  apply List.Pairwise.eq_of_mem_iff List.pairwise_findIdxs hsorted
  intro i
  rw [List.mem_findIdxs_iff_exists_getElem_pos]
  simp only [shownDraws, List.getElem_mapIdx, List.length_mapIdx, isDropped_iff hsorted]
  constructor
  · rintro ⟨-, hmem⟩
    exact hmem
  · intro hmem
    exact ⟨hlt i hmem, hmem⟩

/-- A roll is read off its text if its label has no bracket and its dropped positions are positions
of its draws in ascending order. -/
theorem Shown.read?_render (hlabel : '[' ∉ roll.label.toList)
    (hsorted : roll.dropped.Pairwise (· < ·)) (hlt : ∀ i ∈ roll.dropped, i < roll.draws.length) :
    Shown.read? roll.render = some roll.shown := by
  let list := (", ".intercalate (roll.shownDraws.map ShownDraw.render)).toList
  let details := String.join (roll.details.map fun detail => " " ++ detail.reading.render)
  have htext : roll.render.toList = (roll.label.toList ++ [' ']) ++ '[' ::
      (list ++ ']' :: (" = ".toList ++ (Numeral.ofInt64 roll.total ++ details.toList))) := by
    rw [render, renderDraws_eq_map hsorted]
    simp [details, list]
  have hfront : '[' ∉ roll.label.toList ++ [' '] := by
    simpa using hlabel
  have hlist : ']' ∉ list := by
    show ']' ∉ (", ".intercalate (roll.shownDraws.map ShownDraw.render)).toList
    rw [String.toList_intercalate]
    exact not_mem_intercalate (by decide) (ShownDraw.not_mem_texts rfl (by decide))
  rw [read?, htext, cutAt_append hfront]
  simp only [cutAt_append hlist]
  have hdraws : ShownDraw.readAll? list = some roll.shownDraws :=
    ShownDraw.readAll?_intercalate roll.shownDraws
  have hdrop : (" = ".toList ++ (Numeral.ofInt64 roll.total ++ details.toList)).drop 3 =
      Numeral.ofInt64 roll.total ++ details.toList := rfl
  have htotal : Numeral.readInt64? (cutAt ' ' (Numeral.ofInt64 roll.total ++ details.toList)).1 =
      some roll.total := by
    rw [cutAt_total]
    exact Numeral.readInt64?_ofInt64 roll.total
  rw [hdraws, hdrop, htotal]
  simp [shown, value_shownDraws, findIdxs_shownDraws hsorted hlt]

end Roll

/-! ## Texts of rolls -/

namespace Table

variable {table : Table} {σ : Type} {source : Source σ} {s s' : σ} {input : String} {roll : Roll}

/-- The label of a roll is a text that has been scanned. -/
theorem not_mem_label_of_roll (h : table.roll source input s = (.ok roll, s')) {c : Char}
    (hc : Lexeme.isNotationChar c = false) : c ∉ roll.label.toList := by
  obtain ⟨formula, hread, hevaluate⟩ := exists_formula_of_roll h
  obtain ⟨tokens, hreadAs⟩ := Formula.read_eq_ok_iff.mp hread
  obtain ⟨words, hlexes⟩ := hreadAs.exists_lexes
  obtain ⟨e, throws, raw, -, -, hroll, -⟩ := exists_settles_of_evaluate hevaluate []
  have hlabel : roll.label.toList = Formula.significant table.limits input.toList := by
    rw [hroll, hreadAs.text, String.toList_ofList]
  intro hmem
  rw [hlabel] at hmem
  simp [hlexes.isNotationChar c hmem] at hc

theorem exists_assembled_of_roll (h : table.roll source input s = (.ok roll, s')) :
    ∃ throws, Assembled throws roll := by
  obtain ⟨formula, -, hevaluate⟩ := exists_formula_of_roll h
  obtain ⟨e, throws, raw, -, hsettles, hroll, -⟩ := exists_settles_of_evaluate hevaluate []
  rw [hroll]
  exact ⟨throws, (Assembled.of_settles hsettles).relabel formula.text⟩

theorem read?_render_of_roll (h : table.roll source input s = (.ok roll, s')) :
    Roll.Shown.read? roll.render = some roll.shown := by
  obtain ⟨throws, hassembled⟩ := exists_assembled_of_roll h
  exact Roll.Shown.read?_render (not_mem_label_of_roll h rfl) hassembled.dropped_sorted
    fun i hi => hassembled.lt_length_of_mem_dropped hi

/-- **The text of a roll is faithful.** It lists the draws and strikes out those that the lookup
finds dropped, at every position; positions behind the draws are not dropped. One reader gets the
label, the draws, the dropped positions and the total back from the text of every roll, so two rolls
with the same text agree on all four, whatever tables and sources they come from. -/
theorem render_of_roll (h : table.roll source input s = (.ok roll, s')) :
    roll.render = roll.label ++ " [" ++ ", ".intercalate (roll.shownDraws.map ShownDraw.render) ++
      "] = " ++ String.ofList (Numeral.ofInt64 roll.total) ++
      String.join (roll.details.map fun detail => " " ++ detail.reading.render) ∧
    (∀ i, roll.isDropped i = true ↔ i ∈ roll.dropped ∧ i < roll.draws.length) ∧
    Roll.Shown.read? roll.render = some roll.shown ∧
    ∀ (other : Table) (τ : Type) (source' : Source τ) (input' : String) (t t' : τ) (roll' : Roll),
      other.roll source' input' t = (.ok roll', t') → roll'.render = roll.render →
        roll'.shown = roll.shown := by
  obtain ⟨throws, hassembled⟩ := exists_assembled_of_roll h
  have hsorted := hassembled.dropped_sorted
  refine ⟨?_, ?_, read?_render_of_roll h, ?_⟩
  · rw [Roll.render, Roll.renderDraws_eq_map hsorted]
  · intro i
    rw [Roll.isDropped_iff hsorted]
    constructor
    · intro hmem
      exact ⟨hmem, hassembled.lt_length_of_mem_dropped hmem⟩
    · rintro ⟨hmem, -⟩
      exact hmem
  · intro other τ source' input' t t' roll' h' hrender
    have hread := read?_render_of_roll h
    have hread' := read?_render_of_roll h'
    rw [hrender, hread] at hread'
    exact (Option.some.inj hread').symm

/-- `2d6kl1 - dF` where the source answers 5, 2 and 1. The first draw is dropped, and the fudge
group has a detail. -/
theorem render_of_roll_fudge :
    Roll.Shown.read? "2d6kl1 - dF [~5~, 2, -1] = 3 \x7bfudge\x7d" =
      some ⟨"2d6kl1 - dF", [5, 2, -1], [0], 3⟩ := by
  have hread : Formula.read (Table.mk .full {}).limits "2d6kl1 - dF" =
      .ok ⟨[.dice ⟨"2d6kl1", ⟨⟨2, by decide, by decide⟩, ⟨6, by decide, by decide⟩, .standard,
          false, some ⟨.keep, .low, .one⟩⟩⟩,
        .dice ⟨"dF", .plain .one ⟨3, by decide, by decide⟩ .fudge⟩, .operator .sub],
        "2d6kl1 - dF"⟩ := by
    decide +kernel
  have hroll : roll {} (Script.source []) "2d6kl1 - dF" ⟨[5, 2, 1], .error⟩ =
      (.ok ⟨3, [5, 2, -1], [0], 0, "2d6kl1 - dF", [⟨2, .fudge⟩]⟩, ⟨[], .error⟩) := by
    rw [roll_of_read hread]
    cbv
  obtain ⟨-, -, hshown, -⟩ := render_of_roll hroll
  exact hshown

end Table

end DiceNotation
