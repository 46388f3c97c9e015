import Mathlib.Data.List.Forall2
import SinFrontend.DataType.Decoration
import SinFrontend.Proofs.Cutting
import SinFrontend.Proofs.Types.Parts

/-!
# Decorations tell types apart

The decorations of the contained types stand one after the other, with nothing between them and
nothing behind the last one. A decoration can be told from what follows it all the same: it begins
with the small letter of a kind, and no other small letter stands in it outside of the names of
structs and of what is contained. How many decorations follow each other is said by the number of a
tuple, and for all other kinds it is one at most.

* `QualitySet.decoration_injective`: the letters of the qualities determine the set.
* `DataType.Made`: the types that can be made.
* `DataType.SameLengths`: corresponding arrays are of the same known length.
* `DataType.decoration_cut`: a decoration can be cut off a text.
* `DataType.decoration_eq_iff`: types that can be made have the same decoration exactly if they are
  the same and corresponding arrays are of the same known length.
-/

namespace SinFrontend

/-! ## Letters -/

theorem PrimaryKind.letter_injective {kind kind' : PrimaryKind} (h : kind.letter = kind'.letter) :
    kind = kind' := by
  cases kind <;> cases kind' <;> first | rfl | exact absurd h (by decide)

theorem PrimaryKind.isLower_letter (kind : PrimaryKind) : kind.letter.isLower = true := by
  cases kind <;> decide

namespace QualitySet

variable {set other : QualitySet}

theorem mem_decoration {letter : Char} :
    letter ∈ set.decoration.toList ↔ (true, letter) ∈ set.flags := by
  rw [decoration, String.toList_ofList]
  simp

theorem isUpper_of_mem_decoration {letter : Char} (h : letter ∈ set.decoration.toList) :
    letter.isUpper = true := by
  rw [mem_decoration, flags] at h
  simp only [List.mem_cons, Prod.mk.injEq, List.not_mem_nil, or_false] at h
  rcases h with h | h | h | h | h | h | h | h | h | h <;> rw [h.2] <;> decide

/-- Each quality has a letter of its own, so the letters determine the set. -/
theorem decoration_injective (h : set.decoration.toList = other.decoration.toList) :
    set = other := by
  have hflag (letter : Char) : (true, letter) ∈ set.flags ↔ (true, letter) ∈ other.flags := by
    rw [← mem_decoration, h, mem_decoration]
  obtain ⟨const, final, static, dynamic, signed, unsigned, long, short, external, managed⟩ := set
  obtain ⟨const', final', static', dynamic', signed', unsigned', long', short', external',
    managed'⟩ := other
  have hconst := hflag 'C'
  have hfinal := hflag 'F'
  have hstatic := hflag 'S'
  have hdynamic := hflag 'D'
  have hsigned := hflag 'G'
  have hunsigned := hflag 'U'
  have hlong := hflag 'L'
  have hshort := hflag 'H'
  have hexternal := hflag 'X'
  have hmanaged := hflag 'M'
  simp [flags] at hconst hfinal hstatic hdynamic hsigned hunsigned hlong hshort hexternal hmanaged
  simp only [mk.injEq]
  grind

end QualitySet

namespace DataType

/-! ## Types that can be made -/

/-- The types that the makers make of each other, and that grow out of those by adding qualities. A
    set of qualities that conflicts is added up to the conflict. -/
inductive Made : DataType → Prop where
  | ofKind (kind : PrimaryKind) (qualities : QualitySet) : Made (ofKind kind qualities)
  | pointerTo {target : DataType} (h : Made target) (qualities : QualitySet) :
      Made (pointerTo target qualities)
  | referenceTo {target : DataType} (h : Made target) (qualities : QualitySet) :
      Made (referenceTo target qualities)
  | arrayOf {element : DataType} (h : Made element) (length : ArrayLength)
      (qualities : QualitySet) : Made (arrayOf element length qualities)
  | tupleOf {members : List DataType} (h : ∀ member ∈ members, Made member)
      (qualities : QualitySet) : Made (tupleOf members qualities)
  | structNamed (name : String) (qualities : QualitySet) : Made (structNamed name qualities)
  | addQuality {type grown : DataType} (h : Made type) {quality : Quality}
      (hadd : type.addQuality quality = .ok grown) : Made grown
  | addQualities {type : DataType} (h : Made type) (qualities : QualitySet) :
      Made (type.addQualities qualities).1

/-- Every struct in a type is known by a name without a question mark. -/
def NamesStructs (type : DataType) : Prop :=
  type.Everywhere fun part => part.kind = .struct →
    ∃ name, part.structName = some name ∧ '?' ∉ name.toList

theorem namesStructs_structNamed {name : String} (h : '?' ∉ name.toList) (qualities : QualitySet) :
    (structNamed name qualities).NamesStructs :=
  .intro (fun _ => ⟨name, rfl, h⟩) nofun

theorem namesStructs_of_parts {type : DataType} (hkind : type.kind ≠ .struct)
    (hparts : ∀ part ∈ type.contained, part.NamesStructs) : type.NamesStructs :=
  .intro (fun hstruct => absurd hstruct hkind) hparts

/-- What makers see to: only a tuple contains more than one type, and only a struct has a name. -/
structure Shaped (type : DataType) : Prop where
  parts : type.kind ≠ .tuple → type.contained.length ≤ 1
  unnamed : type.kind ≠ .struct → type.structName = none

variable {a b type grown : DataType}

/-- Qualities do not change the shape of a type. -/
theorem Everywhere.shaped_of_eq (h : type.Everywhere Shaped) (hkind : grown.kind = type.kind)
    (hcontained : grown.contained = type.contained) (hname : grown.structName = type.structName) :
    grown.Everywhere Shaped := by
  obtain ⟨⟨hparts, hunnamed⟩, hall⟩ := everywhere_iff.mp h
  rw [← hkind, ← hcontained] at hparts
  rw [← hkind, ← hname] at hunnamed
  rw [← hcontained] at hall
  exact .intro ⟨hparts, hunnamed⟩ hall

theorem Made.shaped (h : type.Made) : type.Everywhere Shaped := by
  have hsingle {part : DataType} (hpart : part.Everywhere Shaped) {kind : PrimaryKind}
      (qualities : QualitySet) (length : ArrayLength) :
      (make kind [part] qualities length none).Everywhere Shaped :=
    .intro ⟨fun _ => Nat.le_refl 1, fun _ => rfl⟩ (List.forall_mem_singleton.mpr hpart)
  have hempty (kind : PrimaryKind) (qualities : QualitySet) :
      (make kind [] qualities .unspecified none).Everywhere Shaped :=
    .intro ⟨fun _ => Nat.zero_le 1, fun _ => rfl⟩ (List.forall_mem_nil _)
  induction h with
  | ofKind kind qualities =>
    by_cases hstring : kind = .string
    · rw [hstring]
      exact hsingle (hempty .char .empty) qualities .unspecified
    · rw [DataType.ofKind, if_neg (by simpa using hstring)]
      exact hempty kind qualities
  | pointerTo _ qualities ih | referenceTo _ qualities ih => exact hsingle ih qualities .unspecified
  | arrayOf _ length qualities ih => exact hsingle ih qualities length
  | tupleOf _ qualities ih => exact .intro ⟨fun h => absurd rfl h, fun _ => rfl⟩ ih
  | structNamed name qualities =>
    exact .intro ⟨fun _ => Nat.zero_le 1, fun h => absurd rfl h⟩ (List.forall_mem_nil _)
  | @addQuality type grown _ quality hadd ih =>
    rw [DataType.addQuality] at hadd
    cases hset : type.qualities.add quality with
    | error conflict => simp [hset, Except.map] at hadd
    | ok qualities =>
      obtain rfl : { type with qualities } = grown := by simpa [hset, Except.map] using hadd
      exact ih.shaped_of_eq rfl rfl rfl
  | addQualities _ qualities ih => exact ih.shaped_of_eq rfl rfl rfl

/-! ## Sameness -/

theorem sameTypes_iff {types others : List DataType} :
    sameTypes types others = true ↔
      List.Forall₂ (fun type other => type.sameType other = true) types others := by
  induction types generalizing others with
  | nil => cases others <;> simp [sameTypes]
  | cons type types ih => cases others <;> simp [sameTypes, ih]

theorem sameType_iff : a.sameType b = true ↔
    a.kind = b.kind ∧ a.qualities = b.qualities ∧ a.structName = b.structName ∧
      List.Forall₂ (fun type other => type.sameType other = true) a.contained b.contained := by
  obtain ⟨kind, contained, qualities, length, structName⟩ := a
  rw [← sameTypes_iff]
  simp only [sameType, Bool.and_eq_true, beq_iff_eq]
  tauto

/-- Arrays that correspond to each other are of the same length, where a length that is not known
    counts as zero. -/
inductive SameLengths : DataType → DataType → Prop where
  | intro {a b : DataType}
      (here : a.kind = .array → b.kind = .array → a.length.known = b.length.known)
      (parts : ∀ pair ∈ a.contained.zip b.contained, SameLengths pair.1 pair.2) : SameLengths a b

/-- Types that are the same, array lengths included. -/
def Alike (a b : DataType) : Prop :=
  a.sameType b = true ∧ a.SameLengths b

theorem alike_iff : a.Alike b ↔
    a.kind = b.kind ∧ a.qualities = b.qualities ∧ a.structName = b.structName ∧
      (a.kind = .array → a.length.known = b.length.known) ∧
      List.Forall₂ Alike a.contained b.contained := by
  constructor
  · rintro ⟨hsame, ⟨here, parts⟩⟩
    obtain ⟨hkind, hqualities, hname, hparts⟩ := sameType_iff.mp hsame
    refine ⟨hkind, hqualities, hname, fun harray => here harray (hkind ▸ harray), ?_⟩
    rw [List.forall₂_iff_zip] at hparts ⊢
    exact ⟨hparts.1, fun hpair => ⟨hparts.2 hpair, parts _ hpair⟩⟩
  · rintro ⟨hkind, hqualities, hname, hlength, hparts⟩
    refine ⟨sameType_iff.mpr ⟨hkind, hqualities, hname, hparts.imp fun _ _ h => h.1⟩,
      .intro (fun harray _ => hlength harray) fun pair hpair => ?_⟩
    exact ((List.forall₂_iff_zip.mp hparts).2 hpair).2

/-! ## The pieces of a decoration -/

/-- The name of a struct between question marks. -/
def nameChars (type : DataType) : List Char :=
  if type.kind = .struct then '?' :: ((type.structName.getD "").toList ++ ['?']) else []

/-- The number of an array or a tuple behind a colon. -/
def numberChars (type : DataType) : List Char :=
  if type.kind = .array then ':' :: (toString type.length.known).toList
  else if type.kind = .tuple then ':' :: (toString type.contained.length).toList
  else []

/-- The decorations of what a type contains, behind an ampersand if there are any. -/
def partsChars (type : DataType) : List Char :=
  if type.contained = [] then [] else '&' :: (decorations type.contained).toList

theorem toList_decoration (type : DataType) : type.decoration.toList =
    type.kind.letter :: (type.nameChars ++ (type.qualities.decoration.toList ++
      (type.numberChars ++ type.partsChars))) := by
  obtain ⟨kind, contained, qualities, length, structName⟩ := type
  rw [decoration.eq_def]
  cases kind <;> cases contained <;>
    simp [nameChars, numberChars, partsChars]

/-! ## Cutting decorations -/

/-- What follows a decoration: nothing, or the letter of a kind. -/
def Fresh (rest : List Char) : Prop :=
  ∀ c ∈ rest.head?, c.isLower = true

theorem fresh_decoration (type : DataType) (rest : List Char) :
    Fresh (type.decoration.toList ++ rest) := by
  rw [toList_decoration]
  intro c hc
  obtain rfl : type.kind.letter = c := by simpa using hc
  exact type.kind.isLower_letter

theorem fresh_decorations (types : List DataType) {rest : List Char} (h : Fresh rest) :
    Fresh ((decorations types).toList ++ rest) := by
  cases types with
  | nil => exact h
  | cons type types =>
    rw [decorations, String.toList_append, List.append_assoc]
    exact fresh_decoration type _

variable {p : Char → Bool} {rest rest' : List Char}

theorem Fresh.stops (h : Fresh rest) (hp : ∀ c, c.isLower = true → p c = false) : Stops p rest :=
  fun c hc => hp c (h c hc)

theorem isUpper_of_isLower (c : Char) (h : c.isLower = true) : c.isUpper = false := by
  unfold Char.isLower at h
  unfold Char.isUpper
  simp at *
  grind

theorem isDigit_of_isLower (c : Char) (h : c.isLower = true) : c.isDigit = false := by
  unfold Char.isLower at h
  unfold Char.isDigit
  simp at *
  grind

/-- What a type contains is announced by an ampersand, and what follows it by a small letter. -/
theorem stops_parts (type : DataType) (h : Fresh rest) (hp : ∀ c, c.isLower = true → p c = false)
    (hand : p '&' = false) : Stops p (type.partsChars ++ rest) := by
  unfold partsChars
  split
  · exact h.stops hp
  · exact stops_cons hand _

theorem stops_number (type : DataType) (h : Fresh rest) (hp : ∀ c, c.isLower = true → p c = false)
    (hand : p '&' = false) (hcolon : p ':' = false) :
    Stops p (type.numberChars ++ (type.partsChars ++ rest)) := by
  unfold numberChars
  split
  · exact stops_cons hcolon _
  split
  · exact stops_cons hcolon _
  · exact stops_parts type h hp hand

/-- A type that its decoration tells everything about. -/
structure Legible (type : DataType) : Prop where
  shaped : type.Everywhere Shaped
  named : type.NamesStructs

theorem Legible.of_mem {part : DataType} (h : type.Legible) (hpart : part ∈ type.contained) :
    part.Legible :=
  ⟨h.shaped.of_mem hpart, h.named.of_mem hpart⟩

/-- A name ends at the next question mark. -/
theorem nameChars_cut (ha : a.Legible) (hb : b.Legible) (hkind : a.kind = b.kind)
    (h : a.nameChars ++ rest = b.nameChars ++ rest') :
    a.structName = b.structName ∧ rest = rest' := by
  by_cases hstruct : a.kind = .struct
  · have hstruct' : b.kind = .struct := hkind ▸ hstruct
    obtain ⟨name, hname, hmark⟩ := ha.named.here hstruct
    obtain ⟨name', hname', hmark'⟩ := hb.named.here hstruct'
    simp only [nameChars, if_pos hstruct, if_pos hstruct', hname, hname', Option.getD_some,
      List.cons_append, List.cons.injEq, true_and, List.append_assoc, List.nil_append] at h
    obtain ⟨hnames, hrest⟩ := mark_cut hmark hmark' h
    rw [hname, hname', String.toList_injective hnames]
    exact ⟨rfl, hrest⟩
  · have hstruct' : b.kind ≠ .struct := hkind ▸ hstruct
    rw [ha.shaped.here.unnamed hstruct, hb.shaped.here.unnamed hstruct']
    simpa [nameChars, hstruct, hstruct'] using h

/-- A number ends before the ampersand or the next letter. -/
theorem numberChars_cut (hkind : a.kind = b.kind) (hrest : Stops Char.isDigit rest)
    (hrest' : Stops Char.isDigit rest') (h : a.numberChars ++ rest = b.numberChars ++ rest') :
    (a.kind = .array → a.length.known = b.length.known) ∧
      (a.kind = .tuple → a.contained.length = b.contained.length) ∧ rest = rest' := by
  unfold numberChars at h
  rw [← hkind] at h
  by_cases harray : a.kind = .array
  · simp only [if_pos harray, List.cons_append, List.cons.injEq, true_and] at h
    obtain ⟨hlength, hsame⟩ := number_cut hrest hrest' h
    exact ⟨fun _ => hlength, fun htuple => absurd (harray.symm.trans htuple) nofun, hsame⟩
  by_cases htuple : a.kind = .tuple
  · simp only [if_neg harray, if_pos htuple, List.cons_append, List.cons.injEq, true_and] at h
    obtain ⟨hlength, hsame⟩ := number_cut hrest hrest' h
    exact ⟨fun harray' => absurd harray' harray, fun _ => hlength, hsame⟩
  · simp only [if_neg harray, if_neg htuple, List.nil_append] at h
    exact ⟨fun harray' => absurd harray' harray, fun htuple' => absurd htuple' htuple, h⟩

/-- Types that are no tuples show by the ampersand whether they contain a type. -/
theorem partsChars_cut (ha : a.Legible) (hb : b.Legible) (hkind : a.kind = b.kind)
    (htuple : a.kind = .tuple → a.contained.length = b.contained.length) (hrest : Fresh rest)
    (hrest' : Fresh rest') (h : a.partsChars ++ rest = b.partsChars ++ rest') :
    a.contained.length = b.contained.length ∧
      (decorations a.contained).toList ++ rest = (decorations b.contained).toList ++ rest' := by
  have hmark {chars rest : List Char} (hrest : Fresh rest) : rest ≠ '&' :: chars := by
    rintro rfl
    exact absurd (hrest '&' rfl) (by decide)
  unfold partsChars at h
  by_cases hempty : a.contained = [] <;> by_cases hempty' : b.contained = []
  · simpa [hempty, hempty', decorations] using h
  · rw [if_pos hempty, if_neg hempty'] at h
    exact absurd h (hmark hrest)
  · rw [if_neg hempty, if_pos hempty'] at h
    exact absurd h.symm (hmark hrest')
  · simp only [if_neg hempty, if_neg hempty', List.cons_append, List.cons.injEq, true_and] at h
    refine ⟨?_, h⟩
    by_cases hkind' : a.kind = .tuple
    · exact htuple hkind'
    · have hone := ha.shaped.here.parts hkind'
      have hone' := hb.shaped.here.parts (hkind ▸ hkind')
      have hpos := List.length_pos_iff.mpr hempty
      have hpos' := List.length_pos_iff.mpr hempty'
      omega

/-- The decoration of a type can be cut off whatever follows it. -/
def Cuts (a : DataType) : Prop :=
  ∀ (b : DataType) (rest rest' : List Char), b.Legible → Fresh rest → Fresh rest' →
    a.decoration.toList ++ rest = b.decoration.toList ++ rest' → a.Alike b ∧ rest = rest'

theorem decorations_cut {types others : List DataType} (hlength : types.length = others.length)
    (hcuts : ∀ type ∈ types, type.Cuts) (hothers : ∀ other ∈ others, other.Legible)
    (hrest : Fresh rest) (hrest' : Fresh rest')
    (h : (decorations types).toList ++ rest = (decorations others).toList ++ rest') :
    List.Forall₂ Alike types others ∧ rest = rest' := by
  induction types generalizing others with
  | nil =>
    obtain rfl : others = [] := List.length_eq_zero_iff.mp hlength.symm
    exact ⟨.nil, by simpa [decorations] using h⟩
  | cons type types ih =>
    obtain ⟨other, others, rfl⟩ : ∃ other others', others = other :: others' :=
      List.exists_cons_of_length_eq_add_one hlength.symm
    rw [List.forall_mem_cons] at hcuts hothers
    simp only [decorations, String.toList_append, List.append_assoc] at h
    obtain ⟨halike, hmore⟩ := hcuts.1 other _ _ hothers.1 (fresh_decorations types hrest)
      (fresh_decorations others hrest') h
    obtain ⟨hall, hsame⟩ := ih (by simpa using hlength) hcuts.2 hothers.2 hmore
    exact ⟨.cons halike hall, hsame⟩

theorem decoration_cut (ha : a.Legible) : a.Cuts := by
  induction a using induction_on_parts with
  | step a ih =>
    intro b rest rest' hb hrest hrest' h
    simp only [toList_decoration, List.cons_append, List.append_assoc, List.cons.injEq] at h
    -- Each piece ends where a character of another class begins. The ends of the name and of the
    -- parts depend on the kind, so the kind is read first.
    obtain ⟨hletter, h⟩ := h
    have hkind := PrimaryKind.letter_injective hletter
    obtain ⟨hname, h⟩ := nameChars_cut ha hb hkind h
    obtain ⟨hletters, h⟩ := cut_unique (fun _ => QualitySet.isUpper_of_mem_decoration)
      (fun _ => QualitySet.isUpper_of_mem_decoration)
      (stops_number a hrest isUpper_of_isLower (by decide) (by decide))
      (stops_number b hrest' isUpper_of_isLower (by decide) (by decide)) h
    obtain ⟨hlength, htuple, h⟩ := numberChars_cut hkind
      (stops_parts a hrest isDigit_of_isLower (by decide))
      (stops_parts b hrest' isDigit_of_isLower (by decide)) h
    obtain ⟨hcount, h⟩ := partsChars_cut ha hb hkind htuple hrest hrest' h
    obtain ⟨hparts, hsame⟩ := decorations_cut hcount
      (fun part hpart => ih part hpart (ha.of_mem hpart)) (fun _ => hb.of_mem) hrest hrest' h
    exact ⟨alike_iff.mpr ⟨hkind, QualitySet.decoration_injective hletters, hname, hlength, hparts⟩,
      hsame⟩

/-! ## Decorations of types that are alike -/

theorem decorations_of_alike {types others : List DataType}
    (hparts : ∀ type ∈ types, ∀ other, type.Alike other → type.decoration = other.decoration)
    (h : List.Forall₂ Alike types others) : decorations types = decorations others := by
  induction h with
  | nil => rfl
  | cons halike _ ih =>
    rw [List.forall_mem_cons] at hparts
    rw [decorations, decorations, hparts.1 _ halike, ih hparts.2]

theorem decoration_of_alike (h : a.Alike b) : a.decoration = b.decoration := by
  induction a using induction_on_parts generalizing b with
  | step a ih =>
    obtain ⟨hkind, hqualities, hname, hlength, hparts⟩ := alike_iff.mp h
    have hdecorations := decorations_of_alike (fun part hpart _ => ih part hpart) hparts
    have hcount := hparts.length_eq
    have hempty : a.contained = [] ↔ b.contained = [] := by
      rw [← List.length_eq_zero_iff, hcount, List.length_eq_zero_iff]
    have hnumbers : a.numberChars = b.numberChars := by
      unfold numberChars
      rw [← hkind, ← hcount]
      split
      next harray => rw [hlength harray]
      · rfl
    apply String.toList_injective
    rw [toList_decoration, toList_decoration, hnumbers, hkind, hqualities, nameChars, nameChars,
      partsChars, partsChars, hkind, hname, hdecorations]
    simp only [hempty]

/-- Two types that can be made, and whose structs are known by names without question marks, have
    the same decoration exactly if they are the same and all arrays of the one have the lengths of
    the corresponding arrays of the other. -/
theorem decoration_eq_iff (ha : a.Made) (hb : b.Made) (hnames : a.NamesStructs)
    (hnames' : b.NamesStructs) :
    a.decoration = b.decoration ↔ a.sameType b = true ∧ a.SameLengths b := by
  constructor
  · intro h
    have hfresh : Fresh [] := nofun
    exact (decoration_cut ⟨ha.shaped, hnames⟩ b [] [] ⟨hb.shaped, hnames'⟩ hfresh hfresh
      (by rw [h])).1
  · exact decoration_of_alike

/-- Tuples of an array of structs and an integer, where the arrays are of lengths 1 and 12, are the
    same types and have different decorations. -/
theorem decoration_eq_iff_lengths :
    let tuple (length : ℕ) := tupleOf [arrayOf (structNamed "Point" .empty) (.resolved length)
      .empty, ofKind .int .empty] .empty
    (∀ length, (tuple length).Made ∧ (tuple length).NamesStructs) ∧
      (tuple 1).sameType (tuple 12) = true ∧ ¬(tuple 1).SameLengths (tuple 12) ∧
      (tuple 1).decoration ≠ (tuple 12).decoration := by
  intro tuple
  have hmade (length : ℕ) : (tuple length).Made := by
    refine .tupleOf (List.forall_mem_cons.mpr ⟨?_, List.forall_mem_singleton.mpr ?_⟩) _
    · exact .arrayOf (.structNamed _ _) _ _
    · exact .ofKind _ _
  have hnames (length : ℕ) : (tuple length).NamesStructs := by
    refine namesStructs_of_parts nofun
      (List.forall_mem_cons.mpr ⟨?_, List.forall_mem_singleton.mpr ?_⟩)
    · exact namesStructs_of_parts nofun
        (List.forall_mem_singleton.mpr (namesStructs_structNamed (by decide) _))
    · exact namesStructs_of_parts nofun nofun
  have hlengths : ¬(tuple 1).SameLengths (tuple 12) := by
    rintro ⟨-, hparts⟩
    obtain ⟨hlength, -⟩ := hparts (_, _) List.mem_cons_self
    exact absurd (hlength rfl rfl) (by decide)
  refine ⟨fun length => ⟨hmade length, hnames length⟩, by decide, hlengths, fun h => ?_⟩
  exact hlengths ((decoration_eq_iff (hmade 1) (hmade 12) (hnames 1) (hnames 12)).mp h).2

end DataType

end SinFrontend
