import DiceNotation.Proofs.ScanAppend

/-!
# Texts with blanks between them

Blanks separate: whatever stands in front of a blank is cut as it is cut alone, and whatever stands
behind it, too. So the tokens of two texts with blanks between them are those of the one text and
then those of the other; the first text that cannot be scanned decides the error, and the characters
in front of it are counted.
-/

namespace DiceNotation

namespace Lexeme

variable {c : Char} {text rest stop : List Char} {words : List (List Char)} {tokens : List Token}

theorem Lexes.suffix (h : Lexes text words tokens stop) : stop <:+ text :=
  ⟨words.flatten, h.flatten_append⟩

theorem Lexes.length_flatten (h : Lexes text words tokens stop) :
    words.flatten.length + stop.length = text.length := by
  rw [← h.flatten_append, List.length_append]

/-- No pattern matches in front of a blank where none matches at the end of the text. -/
theorem Unmatched.before_separator (h : Unmatched text) (hne : text ≠ [])
    (hc : isSeparator c = true) (rest : List Char) : Unmatched (text ++ c :: rest) := by
  intro kind w hw hmatched
  obtain ⟨d, tail, rfl⟩ := List.exists_cons_of_ne_nil hne
  have hmem : c ∉ w := by
    intro hmem
    obtain rfl := eq_blank_of_mem hmatched hmem hc
    obtain ⟨e, other, rfl⟩ := List.exists_cons_of_ne_nil (List.ne_nil_of_mem hmem)
    obtain ⟨rfl, -⟩ := List.cons_prefix_cons.mp hw
    have he := isSeparator_of_matches_blank hmatched e List.mem_cons_self
    rw [not_isSeparator_of_unmatched h] at he
    cases he
  exact h kind w (starts_of_not_mem hw hmem) hmatched

/-- A text that is cut up to a place in it is cut up to there in front of a blank. -/
theorem Lexes.before_separator (h : Lexes text words tokens stop) (hne : stop ≠ [])
    (hc : isSeparator c = true) (rest : List Char) :
    Lexes (text ++ c :: rest) words tokens (stop ++ c :: rest) := by
  induction h with
  | stop text => exact .stop _
  | @next kind word behind stop token? words tokens hlongest hstands hrest ih =>
      -- the text goes on behind the word, so the word is not the blanks at its end
      have hbehind : behind ≠ [] := by
        rintro rfl
        exact hne (List.suffix_nil.mp hrest.suffix)
      have hbefore := hlongest.before_separator hc rest fun _ hword =>
        hbehind (List.append_right_eq_self.mp hword.symm)
      rw [List.append_assoc] at hbefore ⊢
      exact .next hbefore (hstands.before_separator hc rest) (ih hne)

/-- The tokens of two texts with blanks between them. -/
theorem Lexes.joined {behind w stop : List Char} {words' : List (List Char)} {tokens' : List Token}
    (h : Lexes text words tokens []) (h' : Lexes behind words' tokens' stop)
    (hstop : stop = [] ∨ Unmatched stop) (hne : w ≠ []) (hw : ∀ c ∈ w, isSeparator c = true) :
    ∃ words'', Lexes (text ++ w ++ behind) words'' (tokens ++ tokens') stop := by
  obtain ⟨words'', hblanks⟩ := h'.blanks hstop hw
  obtain ⟨c, tail, rfl⟩ := List.exists_cons_of_ne_nil hne
  rw [List.append_assoc]
  exact h.separated (hw c List.mem_cons_self) hblanks hstop

end Lexeme

namespace Token

open Lexeme

variable {s w : String} {tokens : List Token} {e : Error}

theorem scan_eq_ok_iff : scan s = .ok tokens ↔ ∃ words, Lexes s.toList words tokens [] :=
  scanFrom_eq_ok_iff

/-- The place of the error is how many characters stand in front of what is left of the text. -/
theorem scan_eq_error_iff : scan s = .error e ↔ ∃ words tokens c rest,
    Lexes s.toList words tokens (c :: rest) ∧ Unmatched (c :: rest) ∧
      e = .unexpectedChar c (s.length - (rest.length + 1)) := by
  rw [scan, scanFrom_eq_error_iff]
  refine exists_congr fun words => exists_congr fun tokens => exists_congr fun c =>
    exists_congr fun rest => and_congr_right fun hlexes => and_congr_right fun _ => ?_
  have hlength := hlexes.length_flatten
  rw [String.length_toList, List.length_cons] at hlength
  rw [Nat.zero_add, ← hlength, Nat.add_sub_cancel]

/-- **Blanks separate.** The tokens of two texts with blanks between them are the tokens of both. If
the first one cannot be scanned, its error stays as it is; if only the second one cannot, the same
character is complained about, as many places further on as the first text and the blanks are
long. -/
theorem scan_separated (hne : w ≠ "") (hw : ∀ c ∈ w.toList, isSeparator c = true) (s t : String) :
    (∀ tokens tokens', scan s = .ok tokens → scan t = .ok tokens' →
      scan (s ++ w ++ t) = .ok (tokens ++ tokens')) ∧
    (∀ e, scan s = .error e → scan (s ++ w ++ t) = .error e) ∧
    ∀ tokens e, scan s = .ok tokens → scan t = .error e →
      ∃ c position, e = .unexpectedChar c position ∧
        scan (s ++ w ++ t) = .error (.unexpectedChar c (position + (s.length + w.length))) := by
  have hnonempty : w.toList ≠ [] := by simpa using hne
  have htext : (s ++ w ++ t).toList = s.toList ++ w.toList ++ t.toList := by simp
  refine ⟨?_, ?_, ?_⟩
  · intro tokens tokens' hs ht
    obtain ⟨words, hs⟩ := scan_eq_ok_iff.mp hs
    obtain ⟨words', ht⟩ := scan_eq_ok_iff.mp ht
    rw [scan_eq_ok_iff, htext]
    exact hs.joined ht (.inl rfl) hnonempty hw
  · intro e hs
    rw [scan, scanFrom_eq_error_iff] at hs
    obtain ⟨words, tokens, c, rest, hs, hunmatched, he⟩ := hs
    obtain ⟨d, tail, hcons⟩ := List.exists_cons_of_ne_nil hnonempty
    have hd : isSeparator d = true := hw d (hcons ▸ List.mem_cons_self)
    rw [scan, scanFrom_eq_error_iff, htext, hcons, List.append_assoc]
    exact ⟨words, tokens, c, _, hs.before_separator (List.cons_ne_nil c rest) hd _,
      hunmatched.before_separator (List.cons_ne_nil c rest) hd _, he⟩
  · intro tokens e hs ht
    obtain ⟨words, hfirst⟩ := scan_eq_ok_iff.mp hs
    obtain ⟨words', tokens', c, rest, hsecond, hunmatched, he⟩ := scan_eq_error_iff.mp ht
    obtain ⟨words'', hjoined⟩ := hfirst.joined hsecond (.inr hunmatched) hnonempty hw
    rw [← htext] at hjoined
    refine ⟨c, _, he, scan_eq_error_iff.mpr ⟨words'', _, c, rest, hjoined, hunmatched, ?_⟩⟩
    have hlength := hsecond.length_flatten
    rw [String.length_toList, List.length_cons] at hlength
    simp only [String.length_append, Error.unexpectedChar.injEq, true_and]
    omega

/-- Without the blanks, `2dFdF` would be a number and another literal. -/
theorem scan_separated_literals : "\t \x0c" ≠ "" ∧
    (∀ c ∈ "\t \x0c".toList, isSeparator c = true) ∧
    scan "2dF" = .ok [.dice ⟨"2dF",
      .plain ⟨2, by decide, by decide⟩ ⟨3, by decide, by decide⟩ .fudge⟩] ∧
    scan "dF é" = .error (.unexpectedChar 'é' 3) ∧
    scan ("2dF" ++ "\t \x0c" ++ "dF é") = .error (.unexpectedChar 'é' 9) := by
  have hblanks : ∀ c ∈ "\t \x0c".toList, isSeparator c = true :=
    List.all_eq_true.mp (by decide +kernel)
  have hfirst : scan "2dF" = .ok [.dice ⟨"2dF",
      .plain ⟨2, by decide, by decide⟩ ⟨3, by decide, by decide⟩ .fudge⟩] := by decide +kernel
  have hsecond : scan "dF é" = .error (.unexpectedChar 'é' 3) := by decide +kernel
  obtain ⟨c, position, he, hjoined⟩ :=
    (scan_separated (by decide) hblanks "2dF" "dF é").2.2 _ _ hfirst hsecond
  cases he
  exact ⟨by decide, hblanks, hfirst, hsecond, hjoined⟩

end Token

end DiceNotation
