import ConfigContract.Proofs.Json.Containers

/-!
Every printed JSON value, of whatever depth and with numbers of whatever size, is passed over to its
end.
-/

namespace ConfigContract

open Text

/-! Strings -/

namespace Token

theorem exists_of_keep {glyph : Glyph} {result : Except Reason (Text × Text)} {glyphs rest : Text}
    (kept : content.keep glyph result = .ok (glyphs, rest)) :
    ∃ others, result = .ok (others, rest) := by
  cases result with
  | error reason => cases kept
  | ok read =>
      cases kept
      exact ⟨_, rfl⟩

theorem skipString_quad {a b c d : Glyph} {unit : Nat} (quad : hexQuad? a b c d = some unit)
    (rest : Text) :
    skipString (.char '\\' :: .char 'u' :: a :: b :: c :: d :: rest) = skipString rest := by
  rw [skipString.eq_def]
  simp [quad]

/-- What can be read as a string can be passed over. -/
theorem skipString_of_content {text glyphs rest : Text} (read : content text = .ok (glyphs, rest)) :
    skipString text = .ok rest := by
  fun_induction content text generalizing glyphs
  case case2 ih =>
    obtain ⟨others, inner⟩ := exists_of_keep read
    rw [skipString, ih inner]
  case case3 =>
    cases read
    rw [skipString.eq_def]
    simp
  case case9 leading _ _ _ _ _ _ _ _ trailing _ _ ih =>
    -- a surrogate pair is passed over as two units
    obtain ⟨others, inner⟩ := exists_of_keep read
    rw [skipString_quad leading, skipString_quad trailing, ih inner]
  case case12 quad _ _ _ ih =>
    obtain ⟨others, inner⟩ := exists_of_keep read
    rw [skipString_quad quad, ih inner]
  case case14 notNumber c simple _ ih =>
    obtain ⟨others, inner⟩ := exists_of_keep read
    rw [skipString.eq_def]
    simp [notNumber, simple, ih inner]
  case case17 notQuote notSlash visible ih =>
    obtain ⟨others, inner⟩ := exists_of_keep read
    rw [skipString.eq_def]
    simp [notQuote, notSlash, visible, ih inner]
  all_goals cases read

theorem skipString_writeString (s : String) (rest : Text) :
    skipString (ofChars (s.toList.flatMap Json.escape) ++ .char '"' :: rest) = .ok rest :=
  skipString_of_content (content_flatMap_escape s.toList rest)

end Token

namespace Reader

/-! Values. Passing over a text takes no more steps than the text has characters. -/

/-- With more steps than some text has characters, at most so many are taken, and what is left to do
is to pass over what stands around. -/
def Passes (length : Nat) (result : Text → Except Reason Text)
    (after : Text → Except Reason Text) : Prop :=
  ∀ steps, length < steps.length →
    ∃ left, steps.length ≤ left.length + length ∧ result steps = after left

namespace Passes

variable {length more : Nat} {first second third : Text → Except Reason Text}

theorem step (each : ∀ step steps, first (step :: steps) = second steps) :
    Passes 1 first second := by
  intro steps enough
  obtain ⟨step, steps, rfl⟩ := List.exists_cons_of_length_pos (Nat.zero_lt_of_lt enough)
  exact ⟨steps, Nat.le.refl, each step steps⟩

theorem trans (passes : Passes length first second) (passesOn : Passes more second third) :
    Passes (length + more) first third := by
  intro steps enough
  obtain ⟨left, taken, same⟩ := passes steps (by omega)
  obtain ⟨last, takenOn, sameOn⟩ := passesOn left (by omega)
  exact ⟨last, by omega, same.trans sameOn⟩

theorem mono (passes : Passes length first second) (longer : length ≤ more) :
    Passes more first second := by
  intro steps enough
  obtain ⟨left, taken, same⟩ := passes steps (by omega)
  exact ⟨left, by omega, same⟩

end Passes

theorem skipAfter_listComma (around : List Enclosing) (rest : Text) :
    Passes 1 (skipAfter · (.list :: around) (.char ',' :: rest))
      (skipValue · (.list :: around) rest) := .step fun step steps => by
  have comma : Token.isSpace (.char ',') = false := rfl
  simp [skipAfter, Token.skipSpace_of_visible comma]

theorem skipAfter_listEnd (around : List Enclosing) {close : List Char} (spaces : Spaces close)
    (rest : Text) :
    Passes 1 (skipAfter · (.list :: around) (ofChars close ++ .char ']' :: rest))
      (skipAfter · around rest) := .step fun step steps => by
  have bracket : Token.isSpace (.char ']') = false := rfl
  simp [skipAfter, Token.skipSpace_spaces spaces, Token.skipSpace_of_visible bracket]

theorem skipAfter_objectComma (around : List Enclosing) (rest : Text) :
    Passes 1 (skipAfter · (.object :: around) (.char ',' :: rest))
      (skipMember · around rest) := .step fun step steps => by
  have comma : Token.isSpace (.char ',') = false := rfl
  simp [skipAfter, Token.skipSpace_of_visible comma]

theorem skipAfter_objectEnd (around : List Enclosing) {close : List Char} (spaces : Spaces close)
    (rest : Text) :
    Passes 1 (skipAfter · (.object :: around) (ofChars close ++ .char '}' :: rest))
      (skipAfter · around rest) := .step fun step steps => by
  have brace : Token.isSpace (.char '}') = false := rfl
  simp [skipAfter, Token.skipSpace_spaces spaces, Token.skipSpace_of_visible brace]

theorem skipMember_key (around : List Enclosing) {lead : List Char} (spaces : Spaces lead)
    (key : String) (gap : List Char) (rest : Text) :
    Passes 1 (skipMember · around (ofChars lead ++ (ofChars (Json.writeString key) ++
        (ofChars (':' :: gap) ++ rest))))
      (skipValue · (.object :: around) (ofChars gap ++ rest)) := .step fun step steps => by
  have quote : Token.isSpace (.char '"') = false := rfl
  have colon : Token.isSpace (.char ':') = false := rfl
  have passed := Token.skipString_writeString key (.char ':' :: (ofChars gap ++ rest))
  simp [skipMember, Json.writeString, Token.skipSpace_spaces spaces,
    Token.skipSpace_of_visible quote, Token.skipSpace_of_visible colon, passed]

variable {layout : Layout}

theorem skipValue_number (around : List Enclosing) {lead : List Char} (spaces : Spaces lead)
    (n : JsonNumber) {rest : Text} (stops : Token.Stops rest) :
    Passes 1 (skipValue · around (ofChars lead ++ (ofChars (Json.writeNumber n) ++ rest)))
      (skipAfter · around rest) := .step fun step steps => by
  obtain ⟨sign, text, written, signed, unsigned⟩ := Json.exists_writeNumber n
  have passed := Token.skipNumber_unsigned unsigned stops
  rw [written]
  rcases signed with rfl | rfl
  · obtain ⟨c, tail, rfl, digit⟩ := unsigned.first
    have visible := Token.isSpace_of_isDigit digit
    rw [ofChars_cons, List.cons_append] at passed
    have notNull : c ≠ 'n' := Token.ne_of_isDigit digit rfl
    have notTrue : c ≠ 't' := Token.ne_of_isDigit digit rfl
    have notFalse : c ≠ 'f' := Token.ne_of_isDigit digit rfl
    have notMinus : c ≠ '-' := Token.ne_of_isDigit digit rfl
    have notQuote : c ≠ '"' := Token.ne_of_isDigit digit rfl
    have notBracket : c ≠ '[' := Token.ne_of_isDigit digit rfl
    have notBrace : c ≠ '{' := Token.ne_of_isDigit digit rfl
    simp [skipValue, Token.skipSpace_spaces spaces, Token.skipSpace_of_visible visible, digit,
      passed]
  · have visible : Token.isSpace (.char '-') = false := rfl
    simp [skipValue, Token.skipSpace_spaces spaces, Token.skipSpace_of_visible visible, passed]

theorem skipValue_string (around : List Enclosing) {lead : List Char} (spaces : Spaces lead)
    (s : String) (rest : Text) :
    Passes 1 (skipValue · around (ofChars lead ++ (ofChars (Json.writeString s) ++ rest)))
      (skipAfter · around rest) := .step fun step steps => by
  have quote : Token.isSpace (.char '"') = false := rfl
  have passed := Token.skipString_writeString s rest
  simp [skipValue, Json.writeString, Token.skipSpace_spaces spaces,
    Token.skipSpace_of_visible quote, passed]

theorem skipValue_null (around : List Enclosing) {lead : List Char} (spaces : Spaces lead)
    (rest : Text) :
    Passes 1 (skipValue · around (ofChars lead ++ (ofChars ['n', 'u', 'l', 'l'] ++ rest)))
      (skipAfter · around rest) := .step fun step steps => by
  have visible : Token.isSpace (.char 'n') = false := rfl
  have passed := Token.word_ofChars "ull".toList rest
  simp [skipValue, Token.skipSpace_spaces spaces, Token.skipSpace_of_visible visible] at passed ⊢
  simp [passed]

theorem skipValue_bool (around : List Enclosing) {lead : List Char} (spaces : Spaces lead)
    (value : Bool) (level : Nat) (rest : Text) :
    Passes 1 (skipValue · around (ofChars lead ++
      (ofChars ((Json.bool value).write layout level) ++ rest))) (skipAfter · around rest) :=
  .step fun step steps => by
    cases value
    · have visible : Token.isSpace (.char 'f') = false := rfl
      have passed := Token.word_ofChars "alse".toList rest
      simp [Json.write, skipValue, Token.skipSpace_spaces spaces,
        Token.skipSpace_of_visible visible] at passed ⊢
      simp [passed]
    · have visible : Token.isSpace (.char 't') = false := rfl
      have passed := Token.word_ofChars "rue".toList rest
      simp [Json.write, skipValue, Token.skipSpace_spaces spaces,
        Token.skipSpace_of_visible visible] at passed ⊢
      simp [passed]

theorem skipValue_emptyList (around : List Enclosing) {lead : List Char} (spaces : Spaces lead)
    (rest : Text) :
    Passes 1 (skipValue · around (ofChars lead ++ (ofChars ['[', ']'] ++ rest)))
      (skipAfter · around rest) := .step fun step steps => by
  have opening : Token.isSpace (.char '[') = false := rfl
  have closing : Token.isSpace (.char ']') = false := rfl
  simp [skipValue, Token.skipSpace_spaces spaces, Token.skipSpace_of_visible opening,
    Token.skipSpace_of_visible closing]

theorem skipValue_list (layout : Layout) (around : List Enclosing) {lead gap : List Char}
    (spaces : Spaces lead) (gapSpaces : Spaces gap) (item : Json) (level : Nat) (rest : Text) :
    Passes 1 (skipValue · around (ofChars lead ++ (.char '[' :: (ofChars gap ++
        (ofChars (item.write layout level) ++ rest)))))
      (skipValue · (.list :: around) (ofChars (item.write layout level) ++ rest)) :=
  .step fun step steps => by
    obtain ⟨c, tail, written, visible, -, notBracket, -⟩ := item.fronted layout level
    have opening : Token.isSpace (.char '[') = false := rfl
    simp [skipValue, Token.skipSpace_spaces spaces, Token.skipSpace_of_visible opening,
      Token.skipSpace_spaces gapSpaces, written, Token.skipSpace_of_visible visible, notBracket]

theorem skipValue_emptyObject (around : List Enclosing) {lead : List Char} (spaces : Spaces lead)
    (rest : Text) :
    Passes 1 (skipValue · around (ofChars lead ++ (ofChars ['{', '}'] ++ rest)))
      (skipAfter · around rest) := .step fun step steps => by
  have opening : Token.isSpace (.char '{') = false := rfl
  have closing : Token.isSpace (.char '}') = false := rfl
  simp [skipValue, Token.skipSpace_spaces spaces, Token.skipSpace_of_visible opening,
    Token.skipSpace_of_visible closing]

theorem skipValue_object (around : List Enclosing) {lead gap : List Char} (spaces : Spaces lead)
    (gapSpaces : Spaces gap) (key : String) (rest : Text) :
    Passes 1 (skipValue · around (ofChars lead ++ (.char '{' :: (ofChars gap ++
        (ofChars (Json.writeString key) ++ rest)))))
      (skipMember · around (ofChars (Json.writeString key) ++ rest)) :=
  .step fun step steps => by
    have opening : Token.isSpace (.char '{') = false := rfl
    have quote : Token.isSpace (.char '"') = false := rfl
    simp [skipValue, Json.writeString, Token.skipSpace_spaces spaces,
      Token.skipSpace_of_visible opening, Token.skipSpace_spaces gapSpaces,
      Token.skipSpace_of_visible quote]

mutual

theorem passes_value (plain : layout.Plain) : ∀ (json : Json) (level : Nat)
    (around : List Enclosing) {lead : List Char}, Spaces lead → ∀ {rest : Text},
    Token.Stops rest → Passes (json.write layout level).length
      (skipValue · around (ofChars lead ++ (ofChars (json.write layout level) ++ rest)))
      (skipAfter · around rest)
  | .null, _, around, _, spaces, rest, _ =>
      (skipValue_null around spaces rest).mono (by simp [Json.write])
  | .bool value, level, around, _, spaces, rest, _ =>
      (skipValue_bool around spaces value level rest).mono (by cases value <;> simp [Json.write])
  | .number n, level, around, _, spaces, rest, stops => by
      obtain ⟨c, tail, written, -⟩ := Json.writeNumber_opens n
      exact (skipValue_number around spaces n stops).mono (by simp [Json.write, written])
  | .string s, _, around, _, spaces, rest, _ =>
      (skipValue_string around spaces s rest).mono (by simp [Json.write, Json.writeString])
  | .array [], _, around, _, spaces, rest, _ =>
      (skipValue_emptyList around spaces rest).mono (by simp [Json.write])
  | .array (item :: items), level, around, lead, spaces, rest, _ => by
      have opened := skipValue_list layout around spaces (plain.newline (level + 1)) item
        (level + 1) (ofChars (Json.writeItems layout (level + 1) items) ++
          (ofChars (layout.newline level) ++ .char ']' :: rest))
      have first := passes_value plain item (level + 1) (.list :: around) .nil
        (Token.stops_items layout (level + 1) items (plain.newline level) rest)
      have others := passes_items plain items (level + 1) around (plain.newline level) rest
      rw [ofChars_nil, List.nil_append] at first
      have passed := (opened.trans first).trans others
      simp only [Json.write, ofChars_cons, ofChars_nil, ofChars_append, List.append_assoc,
        List.cons_append, List.nil_append]
      refine passed.mono ?_
      simp only [List.length_append, List.length_cons]
      omega
  | .object [], _, around, _, spaces, rest, _ =>
      (skipValue_emptyObject around spaces rest).mono (by simp [Json.write])
  | .object ((key, value) :: members), level, around, lead, spaces, rest, _ => by
      obtain ⟨gap, colon, gapSpaces⟩ := plain.colon
      have opened := skipValue_object around spaces (plain.newline (level + 1)) key
        (ofChars (':' :: gap) ++ (ofChars (value.write layout (level + 1)) ++
          (ofChars (Json.writeMembers layout (level + 1) members) ++
            (ofChars (layout.newline level) ++ .char '}' :: rest))))
      have named := skipMember_key around .nil key gap (ofChars (value.write layout (level + 1)) ++
        (ofChars (Json.writeMembers layout (level + 1) members) ++
          (ofChars (layout.newline level) ++ .char '}' :: rest)))
      have first := passes_value plain value (level + 1) (.object :: around) gapSpaces
        (Token.stops_members layout (level + 1) members (plain.newline level) rest)
      have others := passes_members plain members (level + 1) around (plain.newline level) rest
      rw [ofChars_nil, List.nil_append] at named
      have passed := ((opened.trans named).trans first).trans others
      simp only [Json.write, colon, ofChars_cons, ofChars_nil, ofChars_append, List.append_assoc,
        List.cons_append, List.nil_append] at passed ⊢
      refine passed.mono ?_
      simp only [Json.writeString, List.length_append, List.length_cons]
      omega

theorem passes_items (plain : layout.Plain) : ∀ (items : List Json) (level : Nat)
    (around : List Enclosing) {close : List Char}, Spaces close → ∀ (rest : Text),
    Passes ((Json.writeItems layout level items).length + 1)
      (skipAfter · (.list :: around) (ofChars (Json.writeItems layout level items) ++
        (ofChars close ++ .char ']' :: rest)))
      (skipAfter · around rest)
  | [], _, around, _, spaces, rest => (skipAfter_listEnd around spaces rest).mono (by simp)
  | item :: items, level, around, close, spaces, rest => by
      have comma := skipAfter_listComma around (ofChars (layout.newline level) ++
        (ofChars (item.write layout level) ++ (ofChars (Json.writeItems layout level items) ++
          (ofChars close ++ .char ']' :: rest))))
      have first := passes_value plain item level (.list :: around) (plain.newline level)
        (Token.stops_items layout level items spaces rest)
      have others := passes_items plain items level around spaces rest
      have passed := (comma.trans first).trans others
      simp only [Json.writeItems, ofChars_cons, ofChars_append, List.append_assoc,
        List.cons_append]
      refine passed.mono ?_
      simp only [List.length_append, List.length_cons]
      omega

theorem passes_members (plain : layout.Plain) : ∀ (members : List (String × Json)) (level : Nat)
    (around : List Enclosing) {close : List Char}, Spaces close → ∀ (rest : Text),
    Passes ((Json.writeMembers layout level members).length + 1)
      (skipAfter · (.object :: around) (ofChars (Json.writeMembers layout level members) ++
        (ofChars close ++ .char '}' :: rest)))
      (skipAfter · around rest)
  | [], _, around, _, spaces, rest => (skipAfter_objectEnd around spaces rest).mono (by simp)
  | (key, value) :: members, level, around, close, spaces, rest => by
      obtain ⟨gap, colon, gapSpaces⟩ := plain.colon
      have comma := skipAfter_objectComma around (ofChars (layout.newline level) ++
        (ofChars (Json.writeString key) ++ (ofChars (':' :: gap) ++
          (ofChars (value.write layout level) ++
            (ofChars (Json.writeMembers layout level members) ++
              (ofChars close ++ .char '}' :: rest))))))
      have named := skipMember_key around (plain.newline level) key gap
        (ofChars (value.write layout level) ++ (ofChars (Json.writeMembers layout level members) ++
          (ofChars close ++ .char '}' :: rest)))
      have first := passes_value plain value level (.object :: around) gapSpaces
        (Token.stops_members layout level members spaces rest)
      have others := passes_members plain members level around spaces rest
      have passed := ((comma.trans named).trans first).trans others
      simp only [Json.writeMembers, colon, ofChars_cons, ofChars_append, List.append_assoc,
        List.cons_append] at passed ⊢
      refine passed.mono ?_
      simp only [Json.writeString, List.length_append, List.length_cons]
      omega

end

/-- A value is passed over to its end, however deep it is. -/
theorem skip_apply (plain : layout.Plain) (json : Json) (level : Nat) {lead : List Char}
    (spaces : Spaces lead) {rest : Text} (stops : Token.Stops rest) :
    skip (ofChars lead ++ (ofChars (json.write layout level) ++ rest)) = .ok ((), rest) := by
  obtain ⟨left, taken, passed⟩ := passes_value plain json level [] spaces stops
    (stepsFor (ofChars lead ++ (ofChars (json.write layout level) ++ rest))) (by
      simp only [stepsFor, List.length_cons, List.length_append, length_ofChars]
      omega)
  have remaining : 0 < left.length := by
    simp only [stepsFor, List.length_cons, List.length_append, length_ofChars] at taken
    omega
  obtain ⟨step, left, rfl⟩ := List.exists_cons_of_length_pos remaining
  have ended : skipAfter (step :: left) [] rest = .ok rest := by simp [skipAfter]
  simp only [skip, skipping, ofToken, passed, ended, Except.map]

end Reader

end ConfigContract
