import ConfigContract.Provider.Address
import Mathlib.Data.List.Basic

/-!
Addresses as texts. The grammar of written addresses is `[[host/]owner/]kind` with white space
around and letters of either case: exactly the texts of this form are read. The text of an address
has all three parts, so it is read as that address and stands for no other.
-/

namespace ConfigContract

namespace Address

/-! The grammar -/

def Alphanumeric (c : Char) : Prop := c.isDigit = true ∨ c.isLower = true

structure Segment (s : List Char) : Prop where
  nonempty : s ≠ []
  plain : ∀ c ∈ s, Alphanumeric c ∨ c = '-'
  front : ∀ c ∈ s.head?, c ≠ '-'
  back : ∀ c ∈ s.getLast?, c ≠ '-'

structure HostName (s : List Char) : Prop where
  nonempty : s ≠ []
  plain : ∀ c ∈ s, Alphanumeric c ∨ c = '.' ∨ c = '-'
  front : ∀ c ∈ s.head?, Alphanumeric c
  back : ∀ c ∈ s.getLast?, Alphanumeric c

structure Port (digits : List Char) : Prop where
  nonempty : digits ≠ []
  decimal : ∀ c ∈ digits, c.isDigit = true

def portText : Option (List Char) → List Char
  | none => []
  | some digits => ':' :: digits

def Host (s : List Char) : Prop :=
  ∃ name port, HostName name ∧ (∀ digits ∈ port, Port digits) ∧ s = name ++ portText port

structure Kind (s : List Char) : Prop where
  segment : Segment s
  notPackage : ¬ "terraform-provider-".toList <+: s

inductive Spelling where
  | bare (kind : String)
  | owned (owner kind : String)
  | hosted (host owner kind : String)

namespace Spelling

def parts : Spelling → List String
  | .bare kind => [kind]
  | .owned owner kind => [owner, kind]
  | .hosted host owner kind => [host, owner, kind]

def text (spelling : Spelling) : String := "/".intercalate spelling.parts

def Valid : Spelling → Prop
  | .bare kind => Kind kind.toList
  | .owned owner kind => Segment owner.toList ∧ Kind kind.toList
  | .hosted host owner kind => Host host.toList ∧ Segment owner.toList ∧ Kind kind.toList

/-- The source is the spelling, with letters of either case and white space around it or not. -/
def Spells (spelling : Spelling) (source : String) : Prop :=
  spelling.Valid ∧ ∃ lead written trail, (∀ c ∈ lead, isBlank c = true) ∧
    (∀ c ∈ trail, isBlank c = true) ∧ source.toList = lead ++ (written ++ trail) ∧
    written.map Char.toLower = spelling.text.toList

/-- A part that is not written is the default one. -/
def address : Spelling → Address
  | .bare kind => ⟨"registry.terraform.io", "hashicorp", kind⟩
  | .owned owner kind => ⟨"registry.terraform.io", owner, kind⟩
  | .hosted host owner kind => ⟨host, owner, kind⟩

end Spelling

/-- The normalized source, with the parts in front that it leaves out. -/
def completedForm (source : String) : List Char :=
  let s := normalize source
  match s.count '/' with
  | 0 => "registry.terraform.io/hashicorp/".toList ++ s
  | 1 => "registry.terraform.io/".toList ++ s
  | _ => s

structure Canonical (address : Address) : Prop where
  host : Host address.host.toList
  owner : Segment address.owner.toList
  kind : Kind address.kind.toList

/-! Names, segments and hosts -/

theorem isAlphanumeric_iff {c : Char} : isAlphanumeric c = true ↔ Alphanumeric c := by
  have classes : isAlphanumeric c = (c.isDigit || c.isLower) := rfl
  rw [classes, Bool.or_eq_true, Alphanumeric]

theorem isName_iff {inner : Char → Bool} {s : List Char} : isName inner s = true ↔
    s ≠ [] ∧ (∀ c ∈ s.head?, Alphanumeric c) ∧ (∀ c ∈ s.getLast?, Alphanumeric c) ∧
      ∀ c ∈ s, Alphanumeric c ∨ inner c = true := by
  cases s with
  | nil => simp [isName]
  | cons c rest =>
      obtain ⟨last, final⟩ :=
        Option.isSome_iff_exists.mp (List.getLast?_isSome.mpr (List.cons_ne_nil c rest))
      simp only [isName, List.head?_cons, final, Bool.and_eq_true, isAlphanumeric_iff,
        List.all_eq_true, Bool.or_eq_true, Option.mem_def, Option.some.injEq, forall_eq', and_assoc,
        ne_eq, reduceCtorEq, not_false_eq_true, true_and]

theorem Alphanumeric.ne_dash {c : Char} (alphanumeric : Alphanumeric c) : c ≠ '-' := by
  rintro rfl
  rcases alphanumeric with digit | lower
  · cases digit
  · cases lower

theorem isSegment_iff {s : List Char} : isSegment s = true ↔ Segment s := by
  rw [isSegment, isName_iff]
  simp only [beq_iff_eq]
  constructor
  · rintro ⟨nonempty, front, back, plain⟩
    exact ⟨nonempty, plain, fun c first => (front c first).ne_dash,
      fun c last => (back c last).ne_dash⟩
  · rintro ⟨nonempty, plain, front, back⟩
    exact ⟨nonempty,
      fun c first => (plain c (List.mem_of_mem_head? first)).resolve_right (front c first),
      fun c last => (plain c (List.mem_of_mem_getLast? last)).resolve_right (back c last), plain⟩

theorem isName_iff_hostName {s : List Char} :
    isName (fun c => c == '.' || c == '-') s = true ↔ HostName s := by
  rw [isName_iff]
  simp only [Bool.or_eq_true, beq_iff_eq]
  exact ⟨fun ⟨nonempty, front, back, plain⟩ => ⟨nonempty, plain, front, back⟩,
    fun name => ⟨name.nonempty, name.front, name.back, name.plain⟩⟩

theorem port_iff {digits : List Char} :
    (!digits.isEmpty && digits.all fun c => '0' ≤ c && c ≤ '9') = true ↔ Port digits := by
  have digit (c : Char) : ('0' ≤ c && c ≤ '9') = c.isDigit := rfl
  simp only [digit, Bool.and_eq_true, Bool.not_eq_true', List.isEmpty_eq_false_iff,
    List.all_eq_true]
  exact ⟨fun ⟨nonempty, decimal⟩ => ⟨nonempty, decimal⟩,
    fun port => ⟨port.nonempty, port.decimal⟩⟩

theorem HostName.ne_colon {s : List Char} (name : HostName s) : ∀ c ∈ s, c ≠ ':' := by
  rintro c member rfl
  rcases name.plain ':' member with (digit | lower) | point | dash
  · cases digit
  · cases lower
  · exact absurd point (by decide)
  · exact absurd dash (by decide)

theorem isHost_iff {s : List Char} : isHost s = true ↔ Host s := by
  rw [isHost, Bool.and_eq_true, isName_iff_hostName]
  constructor
  · rintro ⟨name, port⟩
    have split : s.takeWhile (· != ':') ++ s.dropWhile (· != ':') = s :=
      List.takeWhile_append_dropWhile
    have colon := List.head?_dropWhile_not (· != ':') s
    cases rest : s.dropWhile (· != ':') with
    | nil => exact ⟨_, none, name, by simp, by rw [portText, ← rest, split]⟩
    | cons c digits =>
        rw [rest] at split port colon
        obtain rfl : c = ':' := by simpa using colon
        refine ⟨_, some digits, name, ?_, split.symm⟩
        rintro _ ⟨⟩
        exact port_iff.mp port
  · rintro ⟨name, port, isHostName, isPort, rfl⟩
    -- a name holds no colon, so the port begins at the first one
    have passed : ∀ c ∈ name, (c != ':') = true := fun c member =>
      bne_iff_ne.mpr (isHostName.ne_colon c member)
    rw [List.takeWhile_append_of_pos passed, List.dropWhile_append_of_pos passed]
    cases port with
    | none => simpa [portText] using isHostName
    | some digits =>
        have left : (portText (some digits)).takeWhile (· != ':') = [] := rfl
        rw [left, List.append_nil]
        exact ⟨isHostName, port_iff.mpr (isPort digits rfl)⟩

/-! Characters of an address -/

def Plain (c : Char) : Prop := Alphanumeric c ∨ c = '.' ∨ c = '-' ∨ c = ':'

theorem Plain.toNat {c : Char} (plain : Plain c) : 45 ≤ c.toNat ∧ c.toNat ≤ 46 ∨
    48 ≤ c.toNat ∧ c.toNat ≤ 58 ∨ 97 ≤ c.toNat ∧ c.toNat ≤ 122 := by
  rcases plain with alphanumeric | rfl | rfl | rfl
  · have known := isAlphanumeric_iff.mpr alphanumeric
    simp only [isAlphanumeric, Bool.or_eq_true, Bool.and_eq_true, decide_eq_true_eq, Char.le_def,
      UInt32.le_iff_toNat_le] at known
    change 48 ≤ c.toNat ∧ c.toNat ≤ 57 ∨ 97 ≤ c.toNat ∧ c.toNat ≤ 122 at known
    omega
  · decide
  · decide
  · decide

theorem Plain.ne_slash {c : Char} (plain : Plain c) : c ≠ '/' := by
  rintro rfl
  exact absurd plain.toNat (by decide)

theorem Plain.visible {c : Char} (plain : Plain c) : isBlank c = false := by
  have classes := plain.toNat
  simp only [isBlank, Bool.or_eq_false_iff, Bool.and_eq_false_iff, decide_eq_false_iff_not,
    beq_eq_false_iff_ne]
  omega

theorem toLower_eq_self {c : Char} (notUpper : ¬ (65 ≤ c.toNat ∧ c.toNat ≤ 90)) :
    c.toLower = c := by
  have outside : ¬ (c.val ≥ 'A'.val ∧ c.val ≤ 'Z'.val) := by
    simp only [ge_iff_le, UInt32.le_iff_toNat_le]
    exact notUpper
  exact dif_neg outside

theorem Plain.toLower {c : Char} (plain : Plain c) : c.toLower = c := by
  have classes := plain.toNat
  exact toLower_eq_self (by omega)

theorem toLower_of_isBlank {c : Char} (blank : isBlank c = true) : c.toLower = c := by
  simp only [isBlank, Bool.or_eq_true, Bool.and_eq_true, decide_eq_true_eq, beq_iff_eq] at blank
  exact toLower_eq_self (by omega)

theorem Segment.inside {s : List Char} (segment : Segment s) : ∀ c ∈ s, Plain c := by
  intro c member
  rcases segment.plain c member with alphanumeric | dash
  · exact .inl alphanumeric
  · exact .inr (.inr (.inl dash))

theorem Host.inside {s : List Char} (host : Host s) : ∀ c ∈ s, Plain c := by
  obtain ⟨name, port, isHostName, isPort, rfl⟩ := host
  have inName : ∀ c ∈ name, Plain c := by
    intro c member
    rcases isHostName.plain c member with alphanumeric | point | dash
    · exact .inl alphanumeric
    · exact .inr (.inl point)
    · exact .inr (.inr (.inl dash))
  have inPort : ∀ c ∈ portText port, Plain c := by
    cases port with
    | none => exact List.forall_mem_nil _
    | some digits =>
        refine List.forall_mem_cons.mpr ⟨.inr (.inr (.inr rfl)), fun c member => ?_⟩
        exact .inl (.inl ((isPort digits rfl).decimal c member))
  exact List.forall_mem_append.mpr ⟨inName, inPort⟩

/-! Spellings -/

variable {spelling : Spelling} {address : Address}

theorem host_default : Host "registry.terraform.io".toList := isHost_iff.mp (by decide +kernel)

theorem segment_default : Segment "hashicorp".toList := isSegment_iff.mp (by decide +kernel)

theorem Spelling.valid_iff : spelling.Valid ↔ spelling.address.Canonical := by
  cases spelling with
  | bare kind =>
      exact ⟨fun isKind => ⟨host_default, segment_default, isKind⟩, fun canonical => canonical.kind⟩
  | owned owner kind =>
      exact ⟨fun ⟨isOwner, isKind⟩ => ⟨host_default, isOwner, isKind⟩,
        fun canonical => ⟨canonical.owner, canonical.kind⟩⟩
  | hosted host owner kind =>
      exact ⟨fun ⟨isHost, isOwner, isKind⟩ => ⟨isHost, isOwner, isKind⟩,
        fun canonical => ⟨canonical.host, canonical.owner, canonical.kind⟩⟩

theorem Spelling.toList_text (spelling : Spelling) :
    spelling.text.toList = ['/'].intercalate (spelling.parts.map String.toList) := by
  rw [text, String.toList_intercalate]
  rfl

theorem Spelling.Valid.inside (valid : spelling.Valid) :
    ∀ part ∈ spelling.parts.map String.toList, ∀ c ∈ part, Plain c := by
  obtain ⟨isHost, isOwner, isKind⟩ := valid_iff.mp valid
  cases spelling with
  | bare kind => exact List.forall_mem_singleton.mpr isKind.segment.inside
  | owned owner kind =>
      simp only [parts, List.map_cons, List.forall_mem_cons]
      exact ⟨isOwner.inside, isKind.segment.inside, List.forall_mem_nil _⟩
  | hosted host owner kind =>
      simp only [parts, List.map_cons, List.forall_mem_cons]
      exact ⟨isHost.inside, isOwner.inside, isKind.segment.inside, List.forall_mem_nil _⟩

theorem Spelling.Valid.split (valid : spelling.Valid) :
    splitAtChar '/' spelling.text.toList = spelling.parts.map String.toList := by
  have unslashed : ∀ part ∈ spelling.parts.map String.toList, '/' ∉ part :=
    fun part listed member => (valid.inside part listed '/' member).ne_slash rfl
  have divided {first : List Char} {rest : List (List Char)}
      (plain : ∀ part ∈ first :: rest, '/' ∉ part) :
      splitAtChar '/' (['/'].intercalate (first :: rest)) = first :: rest := by
    simpa using @splitAtChar_intercalate '/' [] first rest List.not_mem_nil plain
  rw [toList_text]
  cases spelling <;> exact divided unslashed

theorem Spelling.Valid.plain (valid : spelling.Valid) :
    ∀ c ∈ spelling.text.toList, c = '/' ∨ Plain c := by
  intro c member
  rw [toList_text] at member
  rcases mem_intercalate member with slash | ⟨part, listed, inPart⟩
  · exact .inl slash
  · exact .inr (valid.inside part listed c inPart)

theorem Spelling.Valid.visible (valid : spelling.Valid) :
    ∀ c ∈ spelling.text.toList, isBlank c = false := by
  intro c member
  rcases valid.plain c member with rfl | plain
  · rfl
  · exact plain.visible

theorem Spelling.Valid.map_toLower (valid : spelling.Valid) :
    spelling.text.toList.map Char.toLower = spelling.text.toList := by
  have lower : ∀ c ∈ spelling.text.toList, c.toLower = id c := by
    intro c member
    rcases valid.plain c member with rfl | plain
    · rfl
    · exact plain.toLower
  rw [List.map_congr_left lower, List.map_id]

theorem Spelling.Valid.nonempty (valid : spelling.Valid) : spelling.text.toList ≠ [] := by
  cases spelling with
  | bare kind => simpa [text, parts] using valid.segment.nonempty
  | owned owner kind => simp [text, parts]
  | hosted host owner kind => simp [text, parts]

theorem Spelling.Valid.spells (valid : spelling.Valid) : spelling.Spells spelling.text :=
  ⟨valid, [], _, [], List.forall_mem_nil _, List.forall_mem_nil _, by simp, valid.map_toLower⟩

theorem Spelling.spells_iff {source : String} :
    spelling.Spells source ↔ spelling.Valid ∧ normalize source = spelling.text.toList := by
  refine and_congr_right fun valid => ⟨?_, fun normalized => ?_⟩
  · rintro ⟨lead, written, trail, blankLead, blankTrail, split, lower⟩
    have nonempty : written ≠ [] := by
      rintro rfl
      exact valid.nonempty lower.symm
    -- white space is the same in lower case, and the text of a spelling has none
    have visible : ∀ c ∈ written, isBlank c = false := by
      intro c member
      have known : c.toLower ∈ spelling.text.toList := lower ▸ List.mem_map_of_mem member
      by_contra blank
      rw [Bool.not_eq_false] at blank
      rw [toLower_of_isBlank blank] at known
      exact absurd (valid.visible c known) (by simp [blank])
    rw [normalize, split, trimBlank_surrounded blankLead blankTrail nonempty
      (fun c front => visible c (List.mem_of_mem_head? front))
      fun c back => visible c (List.mem_of_mem_getLast? back), lower]
  · obtain ⟨lead, trail, blankLead, blankTrail, split⟩ := exists_surrounding source.toList
    exact ⟨lead, trimBlank source.toList, trail, blankLead, blankTrail, split, normalized⟩

/-! Reading -/

theorem kind_iff {s : List Char} :
    Kind s ↔ isSegment s = true ∧ packageStart.toList.isPrefixOf s = false := by
  rw [isSegment_iff, ← Bool.not_eq_true, List.isPrefixOf_iff_prefix]
  exact ⟨fun isKind => ⟨isKind.segment, isKind.notPackage⟩,
    fun ⟨segment, notPackage⟩ => ⟨segment, notPackage⟩⟩

theorem parse_ok_iff {source : String} : parse source = .ok address ↔
    complete (splitAtChar '/' (normalize source)) =
        some (address.host.toList, address.owner.toList, address.kind.toList) ∧
      address.Canonical := by
  unfold parse
  cases complete (splitAtChar '/' (normalize source)) with
  | none => simp
  | some parts =>
      obtain ⟨host, owner, kind⟩ := parts
      have passes : (if !isHost host then .error .host
          else if !isSegment owner then .error .owner
          else if !isSegment kind then .error .kind
          else if packageStart.toList.isPrefixOf kind then .error .packageName
          else .ok ⟨.ofList host, .ofList owner, .ofList kind⟩ : Except AddressFault Address) =
            .ok address ↔
          (Host host ∧ Segment owner ∧ Kind kind) ∧
            ⟨.ofList host, .ofList owner, .ofList kind⟩ = address := by
        rw [← isHost_iff, ← isSegment_iff, kind_iff]
        cases isHost host <;> cases isSegment owner <;> cases isSegment kind <;>
          cases packageStart.toList.isPrefixOf kind <;> simp
      refine passes.trans ⟨?_, ?_⟩
      · rintro ⟨⟨isHost, isOwner, isKind⟩, rfl⟩
        simp only [String.toList_ofList, true_and]
        exact ⟨by simpa using isHost, by simpa using isOwner, by simpa using isKind⟩
      · rintro ⟨same, canonical⟩
        obtain ⟨rfl, rfl, rfl⟩ : host = address.host.toList ∧ owner = address.owner.toList ∧
            kind = address.kind.toList := by simpa using same
        exact ⟨⟨canonical.host, canonical.owner, canonical.kind⟩, by simp⟩

theorem complete_parts (spelling : Spelling) :
    complete (spelling.parts.map String.toList) = some (spelling.address.host.toList,
      spelling.address.owner.toList, spelling.address.kind.toList) := by
  cases spelling <;> rfl

theorem exists_parts {parts : List (List Char)} (completed : complete parts =
    some (address.host.toList, address.owner.toList, address.kind.toList)) :
    ∃ spelling : Spelling, parts = spelling.parts.map String.toList ∧
      address = spelling.address := by
  obtain ⟨host, owner, kind⟩ := address
  unfold complete at completed
  split at completed
  next =>
    simp only [Option.some.injEq, Prod.mk.injEq, String.toList_inj] at completed
    obtain ⟨rfl, rfl, rfl⟩ := completed
    exact ⟨.bare kind, rfl, rfl⟩
  next =>
    simp only [Option.some.injEq, Prod.mk.injEq, String.toList_inj] at completed
    obtain ⟨rfl, rfl, rfl⟩ := completed
    exact ⟨.owned owner kind, rfl, rfl⟩
  next =>
    simp only [Option.some.injEq, Prod.mk.injEq] at completed
    obtain ⟨rfl, rfl, rfl⟩ := completed
    exact ⟨.hosted host owner kind, rfl, rfl⟩
  next => cases completed

/-- Exactly the spellings of the grammar are read, as the address that they spell. -/
theorem parse_eq_ok_iff {source : String} : parse source = .ok address ↔
    ∃ spelling : Spelling, spelling.Spells source ∧ address = spelling.address := by
  rw [parse_ok_iff]
  constructor
  · rintro ⟨completed, canonical⟩
    obtain ⟨spelling, parts, rfl⟩ := exists_parts completed
    refine ⟨spelling, Spelling.spells_iff.mpr ⟨Spelling.valid_iff.mpr canonical, ?_⟩, rfl⟩
    rw [Spelling.toList_text, ← parts, intercalate_splitAtChar]
  · rintro ⟨spelling, spells, rfl⟩
    obtain ⟨valid, normalized⟩ := Spelling.spells_iff.mp spells
    rw [normalized, valid.split, complete_parts]
    exact ⟨rfl, Spelling.valid_iff.mp valid⟩

theorem canonical_of_parse {source : String} (parsed : parse source = .ok address) :
    address.Canonical := (parse_ok_iff.mp parsed).2

/-- The text of an address is the spelling that leaves nothing out. -/
theorem text_hosted (address : Address) :
    (Spelling.hosted address.host address.owner address.kind).text = address.render := by
  simp [Spelling.text, Spelling.parts, render, String.append_assoc]

theorem parse_render (canonical : address.Canonical) : parse address.render = .ok address := by
  have valid : (Spelling.hosted address.host address.owner address.kind).Valid :=
    Spelling.valid_iff.mpr canonical
  exact parse_eq_ok_iff.mpr ⟨_, text_hosted address ▸ valid.spells, rfl⟩

theorem render_inj {other : Address} (canonical : address.Canonical)
    (otherCanonical : other.Canonical) : address.render = other.render ↔ address = other := by
  refine ⟨fun same => ?_, congrArg render⟩
  have read := parse_render otherCanonical
  rw [← same, parse_render canonical] at read
  exact Except.ok.inj read

/-! Completed forms -/

/-- A source and its completed form have the same parts. -/
theorem complete_completedForm (source : String) :
    complete (splitAtChar '/' (completedForm source)) =
      complete (splitAtChar '/' (normalize source)) := by
  -- the number of slashes tells which parts are left out
  have parts := length_splitAtChar '/' (normalize source)
  have host : "registry.terraform.io/".toList = defaultHost.toList ++ ['/'] := by decide +kernel
  have both : "registry.terraform.io/hashicorp/".toList =
      defaultHost.toList ++ '/' :: (defaultOwner.toList ++ ['/']) := by decide +kernel
  have unslashed : '/' ∉ defaultHost.toList := by decide +kernel
  have unslashedToo : '/' ∉ defaultOwner.toList := by decide +kernel
  simp only [completedForm]
  split
  next bare =>
    rw [both, splitAtChar_of_not_mem (List.count_eq_zero.mp bare), List.append_assoc,
      List.cons_append, List.append_assoc, List.singleton_append, splitAtChar_append unslashed,
      splitAtChar_append unslashedToo, splitAtChar_of_not_mem (List.count_eq_zero.mp bare)]
    rfl
  next owned =>
    rw [owned] at parts
    obtain ⟨owner, kind, pair⟩ := List.length_eq_two.mp parts
    rw [host, List.append_assoc, List.singleton_append, splitAtChar_append unslashed, pair]
    rfl
  next => rfl

theorem parse_eq_of_completedForm {source other : String}
    (same : completedForm source = completedForm other) : parse source = parse other := by
  have completed := congrArg (fun form => complete (splitAtChar '/' form)) same
  simp only [complete_completedForm] at completed
  rw [parse, completed, parse]

theorem completedForm_of_parse {source : String} (parsed : parse source = .ok address) :
    completedForm source = address.render.toList := by
  obtain ⟨spelling, spells, rfl⟩ := parse_eq_ok_iff.mp parsed
  obtain ⟨valid, normalized⟩ := Spelling.spells_iff.mp spells
  have parts := length_splitAtChar '/' spelling.text.toList
  rw [valid.split, List.length_map] at parts
  have slashes : spelling.text.toList.count '/' = spelling.parts.length - 1 := by omega
  simp only [completedForm, normalized, slashes, ← text_hosted]
  cases spelling <;> simp [Spelling.text, Spelling.parts, Spelling.address]

theorem parse_iff_completedForm {source other : String} (parsed : parse source = .ok address) :
    parse other = .ok address ↔ completedForm other = completedForm source := by
  constructor
  · intro parsedOther
    rw [completedForm_of_parse parsedOther, completedForm_of_parse parsed]
  · intro same
    rw [parse_eq_of_completedForm same, parsed]

end Address

end ConfigContract
