import RoutedCache.Proofs.Json.Lexing

/-!
# The spelling of tokens

The grammar of a JSON text below its values: numbers, texts with their escapes, words and white space between the tokens
(`SpellsTokens`).  The lexer reads exactly the tokens that a text spells (`tokens?_eq_some_iff`).  From each of its modes
it goes on to the end of the token that it is in: a number goes on as long as its parts allow (`NumberPart.rest_cons`),
a text up to the quote that no backslash hides (`Lexer.run_text`).
-/

namespace RoutedCache.Json

/-! ### The grammar of tokens -/

def Blank (text : Bytes) : Prop := ∀ b ∈ text, isSpace b = true

def AllDigits (text : Bytes) : Prop := ∀ b ∈ text, isDigitByte b = true

/-- At least one digit. -/
def Digits (text : Bytes) : Prop := text ≠ [] ∧ AllDigits text

/-- Digits without a leading zero, or a zero. -/
def Whole (text : Bytes) : Prop := text = [0x30] ∨ Digits text ∧ text.head? ≠ some 0x30

def Fraction (text : Bytes) : Prop := text = [] ∨ ∃ digits, Digits digits ∧ text = 0x2E :: digits

/-- The sign of an exponent. -/
def Sign (text : Bytes) : Prop := text = [] ∨ text = [0x2B] ∨ text = [0x2D]

def Exponent (text : Bytes) : Prop :=
  text = [] ∨ ∃ e sign digits, (e = 0x65 ∨ e = 0x45) ∧ Sign sign ∧ Digits digits ∧ text = e :: (sign ++ digits)

def NumberText (text : Bytes) : Prop :=
  ∃ minus whole fraction exponent, (minus = [] ∨ minus = [0x2D]) ∧ Whole whole ∧ Fraction fraction ∧
    Exponent exponent ∧ text = minus ++ (whole ++ (fraction ++ exponent))

/-- What stands between the quotes of a text. -/
inductive SpellsPieces : List Piece → Bytes → Prop
  | nil : SpellsPieces [] []
  | plain {b ps t} (hquote : b ≠ 0x22) (hslash : b ≠ 0x5C) (hcontrol : ¬b < 0x20) (h : SpellsPieces ps t) :
      SpellsPieces (.byte b :: ps) (b :: t)
  | short {e b ps t} (he : shortEscape? e = some b) (h : SpellsPieces ps t) :
      SpellsPieces (.byte b :: ps) (0x5C :: e :: t)
  | unit {p q r s a b c d ps t} (hp : hexValue? p = some a) (hq : hexValue? q = some b) (hr : hexValue? r = some c)
      (hs : hexValue? s = some d) (h : SpellsPieces ps t) :
      SpellsPieces (.unit (((a * 16 + b) * 16 + c) * 16 + d) :: ps) (0x5C :: 0x75 :: p :: q :: r :: s :: t)

inductive SpellsToken : Token → Bytes → Prop
  | openBrace : SpellsToken .openBrace [0x7B]
  | closeBrace : SpellsToken .closeBrace [0x7D]
  | openBracket : SpellsToken .openBracket [0x5B]
  | closeBracket : SpellsToken .closeBracket [0x5D]
  | comma : SpellsToken .comma [0x2C]
  | colon : SpellsToken .colon [0x3A]
  | null : SpellsToken .null nullText
  | bool (b : Bool) : SpellsToken (.bool b) (boolText b)
  | number {t} (h : NumberText t) : SpellsToken .number t
  | text {ps t} (h : SpellsPieces ps t) : SpellsToken (.text ps) (0x22 :: (t ++ [0x22]))

/-- Tokens with any white space around them.  No digit may follow a number, since it would be one of its digits. -/
inductive SpellsTokens : List Token → Bytes → Prop
  | blank {s} (hs : Blank s) : SpellsTokens [] s
  | cons {s token t tokens u} (hs : Blank s) (ht : SpellsToken token t) (hu : SpellsTokens tokens u)
      (hend : token = .number → ∀ b ∈ u.head?, isDigitByte b = false) :
      SpellsTokens (token :: tokens) (s ++ (t ++ u))

/-! ### Numbers -/

/-- What follows on a part of a number. -/
def NumberPart.Rest : NumberPart → Bytes → Prop
  | .sign, t => ∃ whole fraction exponent, Whole whole ∧ Fraction fraction ∧ Exponent exponent ∧
      t = whole ++ (fraction ++ exponent)
  | .zero, t => ∃ fraction exponent, Fraction fraction ∧ Exponent exponent ∧ t = fraction ++ exponent
  | .whole, t => ∃ digits fraction exponent, AllDigits digits ∧ Fraction fraction ∧ Exponent exponent ∧
      t = digits ++ (fraction ++ exponent)
  | .point, t => ∃ digits exponent, Digits digits ∧ Exponent exponent ∧ t = digits ++ exponent
  | .fraction, t => ∃ digits exponent, AllDigits digits ∧ Exponent exponent ∧ t = digits ++ exponent
  | .exponent, t => ∃ sign digits, Sign sign ∧ Digits digits ∧ t = sign ++ digits
  | .exponentSign, t => Digits t
  | .power, t => AllDigits t

theorem digits_cons {b : UInt8} {t : Bytes} : Digits (b :: t) ↔ isDigitByte b = true ∧ AllDigits t := by
  simp [Digits, AllDigits]

theorem allDigits_cons {b : UInt8} {t : Bytes} : AllDigits (b :: t) ↔ isDigitByte b = true ∧ AllDigits t := by
  simp [AllDigits]

theorem allDigits_nil : AllDigits [] := nofun

theorem Exponent.rest_exponent {b : UInt8} {t : Bytes} :
    Exponent (b :: t) ↔ (b = 0x65 ∨ b = 0x45) ∧ NumberPart.Rest .exponent t := by
  constructor
  · rintro (h | ⟨e, sign, digits, he, hs, hd, h⟩)
    · cases h
    · cases h
      exact ⟨he, sign, digits, hs, hd, rfl⟩
  · rintro ⟨hb, sign, digits, hs, hd, rfl⟩
    exact .inr ⟨b, sign, digits, hb, hs, hd, rfl⟩

namespace NumberPart

private theorem rest_zero_cons {b : UInt8} {t : Bytes} :
    Rest .zero (b :: t) ↔ b = 0x2E ∧ Rest .point t ∨ (b = 0x65 ∨ b = 0x45) ∧ Rest .exponent t := by
  constructor
  · rintro ⟨fraction, exponent, hf, he, h⟩
    rcases hf with rfl | ⟨digits, hd, rfl⟩
    · rw [List.nil_append] at h
      rw [← h] at he
      exact .inr (Exponent.rest_exponent.1 he)
    · rw [List.cons_append, List.cons.injEq] at h
      exact .inl ⟨h.1, digits, exponent, hd, he, h.2⟩
  · rintro (⟨rfl, digits, exponent, hd, he, rfl⟩ | h)
    · exact ⟨_, _, .inr ⟨digits, hd, rfl⟩, he, rfl⟩
    · exact ⟨[], b :: t, .inl rfl, Exponent.rest_exponent.2 h, rfl⟩

private theorem rest_sign_cons {b : UInt8} {t : Bytes} :
    Rest .sign (b :: t) ↔ b = 0x30 ∧ Rest .zero t ∨ b ≠ 0x30 ∧ isDigitByte b = true ∧ Rest .whole t := by
  constructor
  · rintro ⟨whole, fraction, exponent, hw, hf, he, h⟩
    rcases hw with rfl | ⟨hd, hne⟩
    · cases h
      exact .inl ⟨rfl, fraction, exponent, hf, he, rfl⟩
    · cases whole with
      | nil => exact absurd rfl hd.1
      | cons d digits =>
        cases h
        obtain ⟨hb, hall⟩ := digits_cons.1 hd
        exact .inr ⟨fun heq => hne (congrArg some heq), hb, digits, fraction, exponent, hall, hf, he, rfl⟩
  · rintro (⟨rfl, fraction, exponent, hf, he, rfl⟩ | ⟨hne, hb, digits, fraction, exponent, hall, hf, he, rfl⟩)
    · exact ⟨[0x30], fraction, exponent, .inl rfl, hf, he, rfl⟩
    · exact ⟨b :: digits, fraction, exponent, .inr ⟨digits_cons.2 ⟨hb, hall⟩, fun heq => hne (Option.some.inj heq)⟩,
        hf, he, rfl⟩

private theorem rest_whole_cons {b : UInt8} {t : Bytes} :
    Rest .whole (b :: t) ↔ isDigitByte b = true ∧ Rest .whole t ∨ Rest .zero (b :: t) := by
  constructor
  · rintro ⟨digits, fraction, exponent, hd, hf, he, h⟩
    cases digits with
    | nil => exact .inr ⟨fraction, exponent, hf, he, h⟩
    | cons d digits =>
      cases h
      obtain ⟨hb, hall⟩ := allDigits_cons.1 hd
      exact .inl ⟨hb, digits, fraction, exponent, hall, hf, he, rfl⟩
  · rintro (⟨hb, digits, fraction, exponent, hd, hf, he, rfl⟩ | ⟨fraction, exponent, hf, he, h⟩)
    · exact ⟨b :: digits, fraction, exponent, allDigits_cons.2 ⟨hb, hd⟩, hf, he, rfl⟩
    · exact ⟨[], fraction, exponent, allDigits_nil, hf, he, h⟩

private theorem rest_point_cons {b : UInt8} {t : Bytes} :
    Rest .point (b :: t) ↔ isDigitByte b = true ∧ Rest .fraction t := by
  constructor
  · rintro ⟨digits, exponent, hd, he, h⟩
    cases digits with
    | nil => exact absurd rfl hd.1
    | cons d digits =>
      cases h
      obtain ⟨hb, hall⟩ := digits_cons.1 hd
      exact ⟨hb, digits, exponent, hall, he, rfl⟩
  · rintro ⟨hb, digits, exponent, hd, he, rfl⟩
    exact ⟨b :: digits, exponent, digits_cons.2 ⟨hb, hd⟩, he, rfl⟩

private theorem rest_fraction_cons {b : UInt8} {t : Bytes} :
    Rest .fraction (b :: t) ↔ isDigitByte b = true ∧ Rest .fraction t ∨ Exponent (b :: t) := by
  constructor
  · rintro ⟨digits, exponent, hd, he, h⟩
    cases digits with
    | nil =>
      rw [List.nil_append] at h
      exact .inr (h ▸ he)
    | cons d digits =>
      cases h
      obtain ⟨hb, hall⟩ := allDigits_cons.1 hd
      exact .inl ⟨hb, digits, exponent, hall, he, rfl⟩
  · rintro (⟨hb, digits, exponent, hd, he, rfl⟩ | he)
    · exact ⟨b :: digits, exponent, allDigits_cons.2 ⟨hb, hd⟩, he, rfl⟩
    · exact ⟨[], b :: t, allDigits_nil, he, rfl⟩

private theorem rest_exponent_cons {b : UInt8} {t : Bytes} :
    Rest .exponent (b :: t) ↔
      isDigitByte b = true ∧ Rest .power t ∨ (b = 0x2B ∨ b = 0x2D) ∧ Rest .exponentSign t := by
  constructor
  · rintro ⟨sign, digits, hs, hd, h⟩
    rcases hs with rfl | rfl | rfl
    · rw [List.nil_append] at h
      exact .inl (digits_cons.1 (h ▸ hd))
    · cases h
      exact .inr ⟨.inl rfl, hd⟩
    · cases h
      exact .inr ⟨.inr rfl, hd⟩
  · rintro (h | ⟨rfl | rfl, hd⟩)
    · exact ⟨[], b :: t, .inl rfl, digits_cons.2 h, rfl⟩
    · exact ⟨[0x2B], t, .inr (.inl rfl), hd, rfl⟩
    · exact ⟨[0x2D], t, .inr (.inr rfl), hd, rfl⟩

private theorem rest_exponentSign_cons {b : UInt8} {t : Bytes} :
    Rest .exponentSign (b :: t) ↔ isDigitByte b = true ∧ Rest .power t := digits_cons

private theorem rest_power_cons {b : UInt8} {t : Bytes} :
    Rest .power (b :: t) ↔ isDigitByte b = true ∧ Rest .power t := allDigits_cons

/-- One more byte of a number leads to the part that it belongs to. -/
theorem rest_cons {part : NumberPart} {b : UInt8} {t : Bytes} :
    part.Rest (b :: t) ↔ ∃ next, part.next? b = some next ∧ next.Rest t := by
  have hdot : isDigitByte 0x2E = false := rfl
  have hsign {b : UInt8} (h : b = 0x2B ∨ b = 0x2D) : isDigitByte b = false := by
    rcases h with rfl | rfl <;> rfl
  have he {b : UInt8} (h : b = 0x65 ∨ b = 0x45) : isDigitByte b = false ∧ b ≠ 0x2E := by
    rcases h with rfl | rfl <;> decide
  cases part with
  | sign =>
    rw [rest_sign_cons]
    simp only [next?]
    grind
  | zero =>
    rw [rest_zero_cons]
    simp only [next?]
    grind
  | whole =>
    rw [rest_whole_cons, rest_zero_cons]
    simp only [next?]
    grind
  | point =>
    rw [rest_point_cons]
    simp only [next?]
    grind
  | fraction =>
    rw [rest_fraction_cons, Exponent.rest_exponent]
    simp only [next?]
    grind
  | exponent =>
    rw [rest_exponent_cons]
    simp only [next?]
    grind
  | exponentSign =>
    rw [rest_exponentSign_cons]
    simp only [next?]
    grind
  | power =>
    rw [rest_power_cons]
    simp only [next?]
    grind

/-- A number ends where nothing has to follow. -/
theorem rest_nil {part : NumberPart} : part.Rest [] ↔ part.ends = true := by
  have hdigits : ¬Digits [] := fun h => h.1 rfl
  have hfraction : Fraction [] := .inl rfl
  have hexponent : Exponent [] := .inl rfl
  have hends : Rest .zero [] := ⟨[], [], hfraction, hexponent, rfl⟩
  cases part with
  | sign =>
    refine iff_of_false ?_ (by decide)
    rintro ⟨whole, _, _, hw, -, -, h⟩
    obtain ⟨rfl, -⟩ := List.append_eq_nil_iff.1 h.symm
    rcases hw with hw | ⟨hw, -⟩
    · cases hw
    · exact hdigits hw
  | zero => exact iff_of_true hends rfl
  | whole => exact iff_of_true ⟨[], [], [], allDigits_nil, hfraction, hexponent, rfl⟩ rfl
  | point =>
    refine iff_of_false ?_ (by decide)
    rintro ⟨digits, _, hd, -, h⟩
    obtain ⟨rfl, -⟩ := List.append_eq_nil_iff.1 h.symm
    exact hdigits hd
  | fraction => exact iff_of_true ⟨[], [], allDigits_nil, hexponent, rfl⟩ rfl
  | exponent =>
    refine iff_of_false ?_ (by decide)
    rintro ⟨_, digits, -, hd, h⟩
    obtain ⟨-, rfl⟩ := List.append_eq_nil_iff.1 h.symm
    exact hdigits hd
  | exponentSign => exact iff_of_false hdigits (by decide)
  | power => exact iff_of_true allDigits_nil rfl

end NumberPart

/-- A number begins with a minus, a zero or another digit. -/
theorem numberText_cons {b : UInt8} {t : Bytes} : NumberText (b :: t) ↔
    b = 0x2D ∧ NumberPart.Rest .sign t ∨ NumberPart.Rest .sign (b :: t) := by
  constructor
  · rintro ⟨minus, whole, fraction, exponent, rfl | rfl, hw, hf, he, h⟩
    · exact .inr ⟨whole, fraction, exponent, hw, hf, he, h⟩
    · cases h
      exact .inl ⟨rfl, whole, fraction, exponent, hw, hf, he, rfl⟩
  · rintro (⟨rfl, whole, fraction, exponent, hw, hf, he, rfl⟩ | ⟨whole, fraction, exponent, hw, hf, he, h⟩)
    · exact ⟨[0x2D], whole, fraction, exponent, .inr rfl, hw, hf, he, rfl⟩
    · exact ⟨[], whole, fraction, exponent, .inl rfl, hw, hf, he, h⟩

theorem not_numberText_nil : ¬NumberText [] := by
  rintro ⟨minus, whole, fraction, exponent, -, hw, -, -, h⟩
  obtain ⟨-, h⟩ := List.append_eq_nil_iff.1 h.symm
  obtain ⟨rfl, -⟩ := List.append_eq_nil_iff.1 h
  rcases hw with hw | ⟨hw, -⟩
  · cases hw
  · exact hw.1 rfl

/-! ### The lexer -/

namespace Lexer

/-- The tokens of a text that is read on from here. -/
def run (s : Lexer) (text : Bytes) : Option (List Token) := (text.foldlM step? s).bind finish?

@[simp] theorem run_nil (s : Lexer) : s.run [] = s.finish? := rfl

@[simp] theorem run_cons (s : Lexer) (b : UInt8) (text : Bytes) :
    s.run (b :: text) = (s.step? b).bind fun next => next.run text := by
  rw [run, List.foldlM_cons, Option.bind_eq_bind, Option.bind_assoc]
  rfl

variable {before all : List Token} {text rest : Bytes}

theorem run_blank (hs : Blank text) : run ⟨.between, before⟩ (text ++ rest) = run ⟨.between, before⟩ rest := by
  induction text with
  | nil => rfl
  | cons b text ih =>
    rw [Blank, List.forall_mem_cons] at hs
    rw [List.cons_append, run_cons, step?, begin?, if_pos hs.1, Option.bind_some, ih hs.2]

/-! ### Numbers -/

private theorem next?_of_ends {part : NumberPart} {b : UInt8} {s : Lexer} (he : part.ends = true)
    (hd : isDigitByte b = false) (hb : begin? before b = some s) : part.next? b = none := by
  have hbegin : b ≠ 0x2E ∧ ¬(b = 0x65 ∨ b = 0x45) := by
    constructor
    · rintro rfl
      cases hb
    · rintro (rfl | rfl) <;> cases hb
  cases part <;> simp_all [NumberPart.ends, NumberPart.next?]

private theorem run_number_nil (part : NumberPart) : run ⟨.number part, before⟩ [] =
    if part.ends then some (Token.number :: before).reverse else none := rfl

private theorem step_number (part : NumberPart) (b : UInt8) : step? ⟨.number part, before⟩ b =
    match part.next? b with
    | some part => some ⟨.number part, before⟩
    | none => if part.ends ∧ ¬isDigitByte b then begin? (.number :: before) b else none := rfl

private theorem run_number_next {part next : NumberPart} {b : UInt8} (h : part.next? b = some next) :
    run ⟨.number part, before⟩ (b :: text) = run ⟨.number next, before⟩ text := by
  rw [run_cons, step_number, h]
  rfl

private theorem run_number_end {part : NumberPart} {b : UInt8} (h : part.next? b = none) :
    run ⟨.number part, before⟩ (b :: text) =
      if part.ends ∧ ¬isDigitByte b then run ⟨.between, .number :: before⟩ (b :: text) else none := by
  rw [run_cons, step_number, h]
  simp only
  split
  next => exact (run_cons ⟨.between, .number :: before⟩ b text).symm
  next => rfl

/-- The lexer goes on to the end of the number. -/
theorem run_number {part : NumberPart} : run ⟨.number part, before⟩ text = some all ↔
    ∃ t rest, text = t ++ rest ∧ part.Rest t ∧ (∀ b ∈ rest.head?, isDigitByte b = false) ∧
      run ⟨.between, .number :: before⟩ rest = some all := by
  constructor
  · intro h
    induction text generalizing part with
    | nil =>
      rw [run_number_nil] at h
      split at h
      next he => exact ⟨[], [], rfl, NumberPart.rest_nil.2 he, nofun, h⟩
      next => cases h
    | cons b text ih =>
      cases hnext : part.next? b with
      | some next =>
        rw [run_number_next hnext] at h
        obtain ⟨t, rest, rfl, ht, hrest, hall⟩ := ih h
        exact ⟨b :: t, rest, rfl, NumberPart.rest_cons.2 ⟨next, hnext, ht⟩, hrest, hall⟩
      | none =>
        rw [run_number_end hnext] at h
        split at h
        next hends =>
          refine ⟨[], b :: text, rfl, NumberPart.rest_nil.2 hends.1, ?_, h⟩
          simpa using hends.2
        next => cases h
  · rintro ⟨t, rest, rfl, ht, hrest, hall⟩
    induction t generalizing part with
    | nil =>
      have he := NumberPart.rest_nil.1 ht
      rw [List.nil_append]
      cases rest with
      | nil =>
        rw [run_number_nil, if_pos he]
        exact hall
      | cons b rest =>
        have hd := hrest b rfl
        obtain ⟨s, hb, -⟩ := Option.bind_eq_some_iff.1 ((run_cons _ b rest).symm.trans hall)
        rw [run_number_end (next?_of_ends he hd hb), if_pos ⟨he, by simp [hd]⟩]
        exact hall
    | cons b t ih =>
      obtain ⟨next, hnext, ht⟩ := NumberPart.rest_cons.1 ht
      rw [List.cons_append, run_number_next hnext]
      exact ih ht

/-! ### Words and texts -/

/-- The lexer goes on to the end of the word. -/
theorem run_word {next : UInt8} {left : Bytes} {token : Token} :
    run ⟨.word next left token, before⟩ text = some all ↔
      ∃ rest, text = next :: (left ++ rest) ∧ run ⟨.between, token :: before⟩ rest = some all := by
  induction left generalizing next text with
  | nil =>
    cases text with
    | nil => simp [finish?]
    | cons b text => 
      by_cases hb : b = next
      · simp [step?, emit, hb]
      · simp [step?, hb]
  | cons c left ih =>
    cases text with
    | nil => simp [finish?]
    | cons b text =>
      by_cases hb : b = next
      · simp [step?, hb, ih]
      · simp [step?, hb]

private theorem step_text (pieces : List Piece) (b : UInt8) : step? ⟨.text pieces, before⟩ b =
    if b = 0x22 then some ⟨.between, .text pieces.reverse :: before⟩
    else if b = 0x5C then some ⟨.escape pieces, before⟩
    else if b < 0x20 then none
    else some ⟨.text (.byte b :: pieces), before⟩ := rfl

private theorem step_escape (pieces : List Piece) (b : UInt8) : step? ⟨.escape pieces, before⟩ b =
    if b = 0x75 then some ⟨.unit pieces 4 0, before⟩
    else (shortEscape? b).map fun c => ⟨.text (.byte c :: pieces), before⟩ := rfl

private theorem step_unit (pieces : List Piece) (left value : Nat) (b : UInt8) :
    step? ⟨.unit pieces left value, before⟩ b = (hexValue? b).map fun digit =>
      if left ≤ 1 then ⟨.text (.unit (value * 16 + digit) :: pieces), before⟩
      else ⟨.unit pieces (left - 1) (value * 16 + digit), before⟩ := rfl

private theorem run_digit {pieces : List Piece} {left value digit : Nat} {b : UInt8} (h : hexValue? b = some digit) :
    run ⟨.unit pieces left value, before⟩ (b :: text) =
      run (if left ≤ 1 then ⟨.text (.unit (value * 16 + digit) :: pieces), before⟩
        else ⟨.unit pieces (left - 1) (value * 16 + digit), before⟩) text := by
  rw [run_cons, step_unit, h]
  rfl

private theorem run_unit {pieces : List Piece} {left value : Nat}
    (h : run ⟨.unit pieces left value, before⟩ text = some all) :
    ∃ b digit rest, text = b :: rest ∧ hexValue? b = some digit ∧
      run (if left ≤ 1 then ⟨.text (.unit (value * 16 + digit) :: pieces), before⟩
        else ⟨.unit pieces (left - 1) (value * 16 + digit), before⟩) rest = some all := by
  cases text with
  | nil => cases h
  | cons b rest =>
    cases hdigit : hexValue? b with
    | none =>
      rw [run_cons, step_unit, hdigit] at h
      cases h
    | some digit =>
      rw [run_digit hdigit] at h
      exact ⟨b, digit, rest, rfl, hdigit, h⟩

/-- What the lexer has read of an escape when it is back in the text. -/
private theorem run_escape {pieces : List Piece} (h : run ⟨.escape pieces, before⟩ text = some all) :
    ∃ piece t rest, text = t ++ rest ∧ run ⟨.text (piece :: pieces), before⟩ rest = some all ∧
      ∀ {more u}, SpellsPieces more u → SpellsPieces (piece :: more) (0x5C :: (t ++ u)) := by
  cases text with
  | nil => cases h
  | cons e text =>
    rw [run_cons, step_escape] at h
    split at h
    next he =>
      subst he
      obtain ⟨p, a, text, rfl, hp, h⟩ := run_unit h
      obtain ⟨q, b, text, rfl, hq, h⟩ := run_unit h
      obtain ⟨r, c, text, rfl, hr, h⟩ := run_unit h
      obtain ⟨s, d, text, rfl, hs, h⟩ := run_unit h
      refine ⟨_, [0x75, p, q, r, s], text, rfl, h, fun hu => ?_⟩
      rw [Nat.zero_mul, Nat.zero_add]
      exact .unit hp hq hr hs hu
    next =>
      obtain ⟨s, hs, h⟩ := Option.bind_eq_some_iff.1 h
      obtain ⟨c, hc, rfl⟩ := Option.map_eq_some_iff.1 hs
      exact ⟨.byte c, [e], text, rfl, h, fun hu => .short hc hu⟩

private theorem exists_of_run_text {pieces : List Piece} (h : run ⟨.text pieces, before⟩ text = some all) :
    ∃ more t rest, text = t ++ 0x22 :: rest ∧ SpellsPieces more t ∧
      run ⟨.between, .text (pieces.reverse ++ more) :: before⟩ rest = some all := by
  -- an escape is more than one byte, hence the induction is on the length
  induction hlength : text.length using Nat.strongRecOn generalizing text pieces with
  | ind length ih =>
    cases text with
    | nil => cases h
    | cons b text =>
      rw [run_cons, step_text] at h
      split at h
      next hb =>
        subst hb
        exact ⟨[], [], text, rfl, .nil, by rw [List.append_nil]; exact h⟩
      next hquote =>
        split at h
        next hb =>
          subst hb
          obtain ⟨piece, t, text', rfl, h, hpiece⟩ := run_escape h
          obtain ⟨more, u, rest, rfl, hu, h⟩ := ih text'.length (by simp at hlength; omega) h rfl
          refine ⟨piece :: more, 0x5C :: (t ++ u), rest, by simp, hpiece hu, ?_⟩
          simpa using h
        next hslash =>
          split at h
          next => cases h
          next hcontrol =>
            obtain ⟨more, t, rest, rfl, ht, h⟩ := ih text.length (by simp at hlength; omega) h rfl
            refine ⟨.byte b :: more, b :: t, rest, rfl, .plain hquote hslash hcontrol ht, ?_⟩
            simpa using h

/-- The lexer goes on to the closing quote. -/
theorem run_text {pieces : List Piece} : run ⟨.text pieces, before⟩ text = some all ↔
    ∃ more t rest, text = t ++ 0x22 :: rest ∧ SpellsPieces more t ∧
      run ⟨.between, .text (pieces.reverse ++ more) :: before⟩ rest = some all := by
  constructor
  · exact exists_of_run_text
  · rintro ⟨more, t, rest, rfl, hmore, hall⟩
    induction hmore generalizing pieces with
    | nil =>
      rw [List.append_nil] at hall
      exact hall
    | plain hquote hslash hcontrol _ ih =>
      rw [List.cons_append, run_cons, step_text, if_neg hquote, if_neg hslash, if_neg hcontrol, Option.bind_some]
      exact ih (by simpa using hall)
    | @short e b ps t he h ih =>
      have hu : e ≠ 0x75 := by
        rintro rfl
        cases he
      rw [List.cons_append, List.cons_append, run_cons, step_text, if_neg (by decide), if_pos rfl, Option.bind_some,
        run_cons, step_escape, if_neg hu, he]
      exact ih (by simpa using hall)
    | unit hp hq hr hs _ ih =>
      simp only [List.cons_append]
      rw [run_cons, step_text, if_neg (by decide), if_pos rfl, Option.bind_some, run_cons, step_escape, if_pos rfl,
        Option.bind_some, run_digit hp, if_neg (by decide), run_digit hq, if_neg (by decide), run_digit hr,
        if_neg (by decide), run_digit hs, if_pos (by decide), Nat.zero_mul, Nat.zero_add]
      exact ih (by simpa using hall)

/-! ### Tokens -/

private theorem digit_cases {b : UInt8} (h : isDigitByte b = true) :
    b ∈ [0x30, 0x31, 0x32, 0x33, 0x34, 0x35, 0x36, 0x37, 0x38, 0x39] := by
  have : ∀ n : Fin 256, isDigitByte n.val.toUInt8 = true →
      n.val.toUInt8 ∈ [0x30, 0x31, 0x32, 0x33, 0x34, 0x35, 0x36, 0x37, 0x38, 0x39] := by decide +kernel
  simpa [h] using this ⟨b.toNat, b.toNat_lt⟩

private theorem begin_of_next? {b : UInt8} {part : NumberPart} (h : NumberPart.sign.next? b = some part) :
    begin? before b = some ⟨.number part, before⟩ := by
  have hdigit : isDigitByte b = true := by
    simp only [NumberPart.next?] at h
    split at h
    next hb =>
      rw [hb]
      rfl
    next =>
      split at h
      next hd => exact hd
      next => cases h
  have hmem := digit_cases hdigit
  simp only [List.mem_cons, List.not_mem_nil, or_false] at hmem
  rcases hmem with rfl | rfl | rfl | rfl | rfl | rfl | rfl | rfl | rfl | rfl <;> cases h <;> rfl

/-- A token leads the lexer from between tokens to between tokens, unless it is a number that a digit follows. -/
theorem run_token {token : Token} {t : Bytes} (h : SpellsToken token t)
    (hend : token = .number → ∀ b ∈ rest.head?, isDigitByte b = false)
    (hall : run ⟨.between, token :: before⟩ rest = some all) : run ⟨.between, before⟩ (t ++ rest) = some all := by
  cases h with
  | null =>
    have : nullText = [0x6E, 0x75, 0x6C, 0x6C] := by decide
    rw [this]
    exact hall
  | bool b =>
    have : boolText b = if b then [0x74, 0x72, 0x75, 0x65] else [0x66, 0x61, 0x6C, 0x73, 0x65] := by
      cases b <;> decide
    rw [this]
    cases b <;> exact hall
  | @number t h =>
    cases t with
    | nil => exact absurd h not_numberText_nil
    | cons b t =>
      rcases numberText_cons.1 h with ⟨rfl, hrest⟩ | hrest
      · exact run_number.2 ⟨t, rest, rfl, hrest, hend rfl, hall⟩
      · obtain ⟨part, hpart, hrest⟩ := NumberPart.rest_cons.1 hrest
        rw [List.cons_append, run_cons]
        show (begin? before b).bind _ = _
        rw [begin_of_next? hpart, Option.bind_some]
        exact run_number.2 ⟨t, rest, rfl, hrest, hend rfl, hall⟩
  | @text ps t h =>
    have htext : run ⟨.text [], before⟩ _ = some all := run_text.2 ⟨ps, t, rest, rfl, h, hall⟩
    rw [List.cons_append, List.append_assoc]
    exact htext
  | _ => exact hall

/-- What a byte between tokens begins. -/
private inductive Begins (before : List Token) (b : UInt8) : Lexer → Prop
  | space (hb : isSpace b = true) : Begins before b ⟨.between, before⟩
  | whole {token} (ht : SpellsToken token [b]) (hn : token ≠ .number) : Begins before b ⟨.between, token :: before⟩
  | text (hb : b = 0x22) : Begins before b ⟨.text [], before⟩
  | word {next left token} (ht : SpellsToken token (b :: next :: left)) (hn : token ≠ .number) :
      Begins before b ⟨.word next left token, before⟩
  | number {part : NumberPart} (hp : ∀ t, part.Rest t → NumberText (b :: t)) : Begins before b ⟨.number part, before⟩

private theorem cases_of_ite {p : Prop} [Decidable p] {s t : Lexer} {other : Option Lexer}
    (h : (if p then some t else other) = some s) : p ∧ t = s ∨ ¬p ∧ other = some s := by
  split at h
  next hp => exact .inl ⟨hp, Option.some.inj h⟩
  next hp => exact .inr ⟨hp, h⟩

private theorem begin_cases {b : UInt8} {s : Lexer} (h : begin? before b = some s) : Begins before b s := by
  have hnull : SpellsToken .null [0x6E, 0x75, 0x6C, 0x6C] := SpellsToken.null
  have htrue : SpellsToken (.bool true) [0x74, 0x72, 0x75, 0x65] := SpellsToken.bool true
  have hfalse : SpellsToken (.bool false) [0x66, 0x61, 0x6C, 0x73, 0x65] := SpellsToken.bool false
  have hnumber {part : NumberPart} (hb : NumberPart.sign.next? b = some part) (t : Bytes) (ht : part.Rest t) :
      NumberText (b :: t) := numberText_cons.2 (.inr (NumberPart.rest_cons.2 ⟨part, hb, ht⟩))
  rw [begin?] at h
  rcases cases_of_ite h with ⟨hspace, rfl⟩ | ⟨-, h⟩
  · exact .space hspace
  rcases cases_of_ite h with ⟨rfl, rfl⟩ | ⟨-, h⟩
  · exact .whole .openBrace nofun
  rcases cases_of_ite h with ⟨rfl, rfl⟩ | ⟨-, h⟩
  · exact .whole .closeBrace nofun
  rcases cases_of_ite h with ⟨rfl, rfl⟩ | ⟨-, h⟩
  · exact .whole .openBracket nofun
  rcases cases_of_ite h with ⟨rfl, rfl⟩ | ⟨-, h⟩
  · exact .whole .closeBracket nofun
  rcases cases_of_ite h with ⟨rfl, rfl⟩ | ⟨-, h⟩
  · exact .whole .comma nofun
  rcases cases_of_ite h with ⟨rfl, rfl⟩ | ⟨-, h⟩
  · exact .whole .colon nofun
  rcases cases_of_ite h with ⟨hb, rfl⟩ | ⟨-, h⟩
  · exact .text hb
  rcases cases_of_ite h with ⟨rfl, rfl⟩ | ⟨-, h⟩
  · exact .word hnull nofun
  rcases cases_of_ite h with ⟨rfl, rfl⟩ | ⟨-, h⟩
  · exact .word htrue nofun
  rcases cases_of_ite h with ⟨rfl, rfl⟩ | ⟨-, h⟩
  · exact .word hfalse nofun
  rcases cases_of_ite h with ⟨rfl, rfl⟩ | ⟨-, h⟩
  · exact .number fun t ht => numberText_cons.2 (.inl ⟨rfl, ht⟩)
  rcases cases_of_ite h with ⟨rfl, rfl⟩ | ⟨h30, h⟩
  · exact .number (hnumber rfl)
  split at h
  next hdigit =>
    cases h
    exact .number (hnumber (by rw [NumberPart.next?, if_neg h30, if_pos hdigit]))
  next => cases h

/-- The lexer reads the spelling of its tokens. -/
theorem run_of_spellsTokens {tokens : List Token} (h : SpellsTokens tokens text) :
    run ⟨.between, before⟩ text = some (before.reverse ++ tokens) := by
  induction h generalizing before with
  | @blank s hs =>
    have hblank : run ⟨.between, before⟩ (s ++ []) = _ := run_blank hs
    rw [List.append_nil, run_nil] at hblank
    rw [hblank, List.append_nil]
    rfl
  | @cons s token t tokens u hs ht _ hend ih =>
    rw [run_blank hs]
    refine run_token ht hend ?_
    rw [ih, List.reverse_cons, List.append_assoc]
    rfl

theorem SpellsTokens.blank_append {s : Bytes} {tokens : List Token} (hs : Blank s) (h : SpellsTokens tokens text) :
    SpellsTokens tokens (s ++ text) := by
  have happend {t : Bytes} (ht : Blank t) : Blank (s ++ t) := by
    rw [Blank, List.forall_mem_append]
    exact ⟨hs, ht⟩
  cases h with
  | blank ht => exact .blank (happend ht)
  | cons ht htoken hu hend =>
    rw [← List.append_assoc]
    exact .cons (happend ht) htoken hu hend

/-- What the lexer reads is the spelling of its tokens. -/
theorem exists_of_run (h : run ⟨.between, before⟩ text = some all) :
    ∃ tokens, all = before.reverse ++ tokens ∧ SpellsTokens tokens text := by
  induction hlength : text.length using Nat.strongRecOn generalizing text before with
  | ind length ih =>
    cases text with
    | nil =>
      cases h
      exact ⟨[], (List.append_nil _).symm, .blank nofun⟩
    | cons b text =>
      rw [List.length_cons] at hlength
      -- a token is behind the lexer, and the rest of the text is shorter
      have hgoes {token : Token} {t rest : Bytes} (heq : b :: text = t ++ rest) (ht : SpellsToken token t)
          (hlt : rest.length < length) (hend : token = .number → ∀ d ∈ rest.head?, isDigitByte d = false)
          (hall : run ⟨.between, token :: before⟩ rest = some all) :
          ∃ tokens, all = before.reverse ++ tokens ∧ SpellsTokens tokens (b :: text) := by
        obtain ⟨tokens, rfl, htokens⟩ := ih rest.length hlt hall rfl
        refine ⟨token :: tokens, by rw [List.reverse_cons, List.append_assoc]; rfl, ?_⟩
        rw [heq]
        exact .cons (s := []) nofun ht htokens hend
      rw [run_cons] at h
      obtain ⟨s, hs, h⟩ := Option.bind_eq_some_iff.1 h
      cases begin_cases hs with
      | space hb =>
        obtain ⟨tokens, rfl, htokens⟩ := ih text.length (by omega) h rfl
        exact ⟨tokens, rfl, SpellsTokens.blank_append (s := [b]) (by simpa [Blank] using hb) htokens⟩
      | whole ht hn => exact hgoes rfl ht (by omega) (fun heq => absurd heq hn) h
      | text hb =>
        obtain ⟨more, t, rest, rfl, hmore, hall⟩ := run_text.1 h
        rw [List.length_append, List.length_cons] at hlength
        refine hgoes (t := 0x22 :: (t ++ [0x22])) ?_ (.text hmore) (by omega) nofun hall
        rw [hb, List.cons_append, List.append_assoc]
        rfl
      | word ht hn =>
        obtain ⟨rest, rfl, hall⟩ := run_word.1 h
        rw [List.length_cons, List.length_append] at hlength
        exact hgoes rfl ht (by omega) (fun heq => absurd heq hn) hall
      | number hp =>
        obtain ⟨t, rest, rfl, ht, hrest, hall⟩ := run_number.1 h
        rw [List.length_append] at hlength
        exact hgoes rfl (.number (hp t ht)) (by omega) (fun _ => hrest) hall

end Lexer

/-- The tokens of a text are those that it spells. -/
theorem tokens?_eq_some_iff {text : Bytes} {tokens : List Token} :
    tokens? text = some tokens ↔ SpellsTokens tokens text := by
  constructor
  · intro h
    obtain ⟨tokens', rfl, htokens⟩ := Lexer.exists_of_run h
    exact htokens
  · intro h
    have hrun : Lexer.run ⟨.between, []⟩ text = _ := Lexer.run_of_spellsTokens h
    exact hrun

end RoutedCache.Json
