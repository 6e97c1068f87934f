import ConfigContract.Proofs.Schema.RoundTrip

/-!
Module schemas written to a file and read from it. Every field comes back, in the order in which it
was written, and only schemas that nest deeper than readers go are refused.
-/

namespace ConfigContract

open Text

namespace Body

def dump (layout : Layout) (body : Body) : Text := Text.ofString (body.toJson.render layout)

theorem readBody_dump {body : Body} (wellFormed : body.WellFormed Json.Integral)
    {layout : Layout} (plain : layout.Plain) :
    Guarded (body.toJson.depth ≤ Reader.greatestDepth) (Schema.readBody (body.dump layout))
      body := by
  have reads := body.reads wellFormed Reader.greatestDepth
  have atEnd : Token.Stops [] := trivial
  have read := (reads.guarded plain 0 .nil atEnd).map Prod.fst
  simpa [Schema.readBody, Schema.bodyReaders, Reader.run, Body.dump, Json.render, Text.ofString,
    ofChars] using read

/-- A schema whose literal values are 64-bit integers, texts, truth values and containers of these
is read back from either layout as it was, if its JSON form nests at most 127 arrays and objects;
beyond that its file is refused. -/
theorem reads_back_up_to_depth (body : Body) (wellFormed : body.WellFormed Json.Integral)
    (layout : Layout) (written : layout = .compact ∨ layout = .pretty) :
    (body.toJson.depth ≤ 127 → Schema.readBody (body.dump layout) = .ok body) ∧
      (127 < body.toJson.depth → ∃ fault, Schema.readBody (body.dump layout) = .error fault) := by
  have plain : layout.Plain := by
    rcases written with rfl | rfl
    · exact Layout.plain_compact
    · exact Layout.plain_pretty
  obtain ⟨fits, misfits⟩ := readBody_dump wellFormed plain
  exact ⟨fits, fun deep => misfits (Nat.not_le.mpr deep)⟩

/-- Every form of constraint, with bounds and integers at their limits, and a text that needs
escapes. -/
def everyForm : Body :=
  { description := some "a \"b\"\\\n\x01é"
    attributes := [
      ("z", {
        description := some ""
        isComputed := true
        isSensitive := true
        constraints := [
          .object [("b", .optional [.reference]), ("a", .required [])],
          .list [.bool, .keyword "type"] 0 18446744073709551615,
          .set [.map [.dynamic]] 1 0,
          .tuple [[], [.number]],
          .literalType (.object [("y", .tuple [.string]), ("x", .map (.set .bool))]),
          .literalValue (.object [
            ("least", .number (.integer (-9223372036854775808))),
            ("greatest",
              .array [.number (.integer 18446744073709551615), .null, .bool false])])] }),
      ("a", {})]
    blocks := [("rule", {
      labels := [⟨"kind", none, true⟩, ⟨"name", some "free", false⟩]
      blockType := .set
      minItems := 2
      body := some { anyAttribute := some (.optional [.string]) }
      dependents := [⟨[⟨0, "allow"⟩, ⟨18446744073709551615, ""⟩], {}⟩, ⟨[], {}⟩] })] }

theorem everyForm_reads_back : everyForm.WellFormed Json.Integral ∧
    everyForm.toJson.depth ≤ 127 ∧
    Schema.readBody (everyForm.dump .compact) = .ok everyForm ∧
    Schema.readBody (everyForm.dump .pretty) = .ok everyForm := by
  have wellFormed : everyForm.WellFormed Json.Integral := by
    simp [everyForm, Attribute.optional, Attribute.required, Constraint.bool, Constraint.number,
      Constraint.dynamic, Constraint.string]
  have shallow : everyForm.toJson.depth ≤ 127 := by decide
  exact ⟨wellFormed, shallow,
    (reads_back_up_to_depth everyForm wellFormed .compact (.inl rfl)).1 shallow,
    (reads_back_up_to_depth everyForm wellFormed .pretty (.inr rfl)).1 shallow⟩

end Body

end ConfigContract
