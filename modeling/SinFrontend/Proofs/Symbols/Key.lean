import SinFrontend.Proofs.Cutting
import SinFrontend.Symbol

/-!
# Keys of symbols in nested scopes

A key is built from a scope, a name and the decoration of a type. Nothing marks where a segment of
the scope ends, but the scopes of the symbols that are alive at one time enclose each other, and
among such scopes the key tells the rest: behind the text of the outer scope comes an `E` in the one
key, and the first digit of a length in the other.

* `Signature`: what distinguishes the symbols of one scope.
* `keyAt_eq_iff`: keys in scopes of which one encloses the other are equal only if everything else
  is.
-/

namespace SinFrontend

/-- What distinguishes the symbols of one scope: a name and the decoration of a type. -/
abbrev Signature := String × String

namespace Symbol

/-- The signature of a symbol. -/
def signature (symbol : Symbol) : Signature :=
  (symbol.name, symbol.type.decoration)

/-- The key of a signature in a scope. -/
def keyAt (scope : List String) (signature : Signature) : String :=
  "_SIN_N" ++ scopeText scope ++ "E@" ++ signature.1 ++ "@" ++ signature.2

theorem key_eq_keyAt (symbol : Symbol) : symbol.key = keyAt symbol.scope symbol.signature := rfl

/-! ## The text of a scope -/

theorem scopeText_append (scope more : List String) :
    scopeText (scope ++ more) = scopeText scope ++ scopeText more := by
  apply String.toList_injective
  simp only [scopeText, String.toList_join, String.toList_append, List.map_append, List.flatMap_append]

theorem toList_scopeText_cons (segment : String) (scope : List String) :
    (scopeText (segment :: scope)).toList =
      (toString segment.utf8ByteSize).toList ++ (segment.toList ++ (scopeText scope).toList) := by
  simp [scopeText, String.toList_join]

/-- The text of a scope that is not empty begins with a digit. -/
theorem exists_digit_of_scopeText {scope : List String} (h : scope ≠ []) :
    ∃ digit rest, (scopeText scope).toList = digit :: rest ∧ digit.isDigit = true := by
  obtain ⟨segment, scope, rfl⟩ := List.exists_cons_of_ne_nil h
  obtain ⟨digit, digits, hdigits⟩ :=
    List.exists_cons_of_ne_nil (number_ne_nil segment.utf8ByteSize)
  refine ⟨digit, digits ++ (segment.toList ++ (scopeText scope).toList), ?_, ?_⟩
  · rw [toList_scopeText_cons, hdigits, List.cons_append]
  · exact isDigit_of_mem_number (hdigits ▸ List.mem_cons_self)

/-! ## Keys -/

theorem toList_keyAt (scope : List String) (signature : Signature) :
    (keyAt scope signature).toList = "_SIN_N".toList ++ ((scopeText scope).toList ++
      'E' :: '@' :: (signature.1.toList ++ '@' :: signature.2.toList)) := by
  simp [keyAt]

/-- In one scope, names without an `@` end where the first `@` stands. -/
theorem signature_eq_of_toList {signature other : Signature} (hname : '@' ∉ signature.1.toList)
    (hother : '@' ∉ other.1.toList)
    (h : signature.1.toList ++ '@' :: signature.2.toList =
      other.1.toList ++ '@' :: other.2.toList) : signature = other := by
  obtain ⟨hnames, htypes⟩ := mark_cut hname hother h
  exact Prod.ext (String.toList_injective hnames) (String.toList_injective htypes)

/-- Keys in scopes of which one encloses the other tell scopes, names and types apart. -/
theorem keyAt_eq_iff {scope inner : List String} (henclosed : scope <+: inner)
    {signature other : Signature} (hname : '@' ∉ signature.1.toList)
    (hother : '@' ∉ other.1.toList) :
    keyAt scope signature = keyAt inner other ↔ scope = inner ∧ signature = other := by
  constructor
  · intro h
    obtain ⟨more, rfl⟩ := henclosed
    have htexts := congrArg String.toList h
    rw [toList_keyAt, toList_keyAt, scopeText_append, String.toList_append, List.append_assoc,
      List.append_cancel_left_eq, List.append_cancel_left_eq] at htexts
    by_cases hmore : more = []
    · subst hmore
      refine ⟨(List.append_nil _).symm, signature_eq_of_toList hname hother ?_⟩
      simpa [scopeText, String.join] using htexts
    · obtain ⟨digit, rest, hdigit, hisDigit⟩ := exists_digit_of_scopeText hmore
      rw [hdigit, List.cons_append, List.cons.injEq] at htexts
      rw [← htexts.1] at hisDigit
      cases hisDigit
  · rintro ⟨rfl, rfl⟩
    rfl

end Symbol

end SinFrontend
