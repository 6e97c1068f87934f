/-!
The text of a file: its characters in order, with the bytes that belong to no character kept in
their places.
-/

namespace ConfigContract

/-- A character, or a byte that is part of no character. -/
inductive Glyph where
  | char (c : Char)
  | stray (byte : UInt8)
deriving DecidableEq, Repr

def Glyph.char? : Glyph → Option Char
  | .char c => some c
  | .stray _ => none

abbrev Text := List Glyph

namespace Text

def ofString (s : String) : Text := s.toList.map Glyph.char

/-- The character that two to four bytes spell, where their number is the shortest possible. -/
def spelled : List UInt8 → Option Char
  | [a, b] =>
      if 0xC2 ≤ a ∧ a ≤ 0xDF ∧ follows b then
        some (Char.ofNat ((a.toNat - 0xC0) * 64 + payload b))
      else none
  | [a, b, c] =>
      let code := (a.toNat - 0xE0) * 4096 + payload b * 64 + payload c
      if 0xE0 ≤ a ∧ a ≤ 0xEF ∧ follows b ∧ follows c ∧ 0x800 ≤ code ∧ code.isValidChar then
        some (Char.ofNat code)
      else none
  | [a, b, c, d] =>
      let code := (a.toNat - 0xF0) * 262144 + payload b * 4096 + payload c * 64 + payload d
      if 0xF0 ≤ a ∧ a ≤ 0xF4 ∧ follows b ∧ follows c ∧ follows d ∧
          0x10000 ≤ code ∧ code.isValidChar then
        some (Char.ofNat code)
      else none
  | _ => none
where
  follows (byte : UInt8) : Bool := 0x80 ≤ byte && byte ≤ 0xBF
  payload (byte : UInt8) : Nat := byte.toNat - 0x80

def ofBytes : List UInt8 → Text
  | [] => []
  | [a] => if a < 0x80 then [.char (Char.ofNat a.toNat)] else [.stray a]
  | a :: b :: rest =>
      if a < 0x80 then .char (Char.ofNat a.toNat) :: ofBytes (b :: rest)
      else
        match spelled [a, b] with
        | some c => .char c :: ofBytes rest
        | none =>
            match rest with
            | [] => .stray a :: ofBytes [b]
            | c :: rest =>
                match spelled [a, b, c] with
                | some character => .char character :: ofBytes rest
                | none =>
                    match rest with
                    | [] => .stray a :: ofBytes [b, c]
                    | d :: rest =>
                        match spelled [a, b, c, d] with
                        | some character => .char character :: ofBytes rest
                        | none => .stray a :: ofBytes (b :: c :: d :: rest)

def characters? (text : Text) : Option (List Char) := text.mapM Glyph.char?

def toString? (text : Text) : Option String := (characters? text).map String.ofList

def byteLength : Text → Nat
  | [] => 0
  | .char c :: rest => c.utf8Size + byteLength rest
  | .stray _ :: rest => 1 + byteLength rest

@[simp] theorem characters?_nil : characters? [] = some [] := rfl

@[simp] theorem characters?_cons (glyph : Glyph) (rest : Text) :
    characters? (glyph :: rest) = glyph.char?.bind fun c => (characters? rest).map (c :: ·) := by
  simp only [characters?, List.mapM_cons]
  cases glyph.char? <;> cases List.mapM Glyph.char? rest <;> rfl

@[simp] theorem characters?_ofString (s : String) :
    characters? (ofString s) = some s.toList := by
  unfold ofString
  induction s.toList with
  | nil => rfl
  | cons c rest ih => simp [Glyph.char?, ih]

@[simp] theorem toString?_ofString (s : String) : toString? (ofString s) = some s := by
  simp [toString?]

end Text

end ConfigContract
