import Mathlib.Data.List.TakeWhile

/-!
# Cutting texts into their pieces

A text that is put together from pieces without separators can be cut in one way only, as long as
each piece goes as far as the class of its characters.

* `cut_unique`: a piece of characters of one class, in front of something else, can be told from
  what follows.
* `mark_cut`, `number_cut`: so can a piece in front of a mark, and a number in decimal digits.
-/

namespace SinFrontend

/-- A text does not begin with a character of a class. -/
def Stops (p : Char → Bool) (rest : List Char) : Prop :=
  ∀ c ∈ rest.head?, p c = false

variable {p : Char → Bool} {piece piece' rest rest' : List Char}

theorem stops_cons {c : Char} (h : p c = false) (rest : List Char) : Stops p (c :: rest) := by
  simpa [Stops] using h

theorem takeWhile_piece (hpiece : ∀ c ∈ piece, p c = true) (hrest : Stops p rest) :
    (piece ++ rest).takeWhile p = piece := by
  rw [List.takeWhile_append_of_pos hpiece]
  cases rest with
  | nil => simp
  | cons c rest => simp [hrest c rfl]

theorem dropWhile_piece (hpiece : ∀ c ∈ piece, p c = true) (hrest : Stops p rest) :
    (piece ++ rest).dropWhile p = rest := by
  rw [List.dropWhile_append_of_pos hpiece]
  cases rest with
  | nil => rfl
  | cons c rest => simp [hrest c rfl]

theorem stops_dropWhile (p : Char → Bool) (chars : List Char) : Stops p (chars.dropWhile p) := by
  intro c hc
  have hhead := List.head?_dropWhile_not p chars
  rw [Option.mem_def.mp hc] at hhead
  simpa using hhead

/-- A piece of characters of one class ends where the class does. -/
theorem cut_unique (hpiece : ∀ c ∈ piece, p c = true) (hpiece' : ∀ c ∈ piece', p c = true)
    (hrest : Stops p rest) (hrest' : Stops p rest') (h : piece ++ rest = piece' ++ rest') :
    piece = piece' ∧ rest = rest' := by
  have hsame : piece = piece' := by
    rw [← takeWhile_piece hpiece hrest, h, takeWhile_piece hpiece' hrest']
  rw [hsame, List.append_cancel_left_eq] at h
  exact ⟨hsame, h⟩

/-- A piece without a mark ends where the next mark stands. -/
theorem mark_cut {mark : Char} (hpiece : mark ∉ piece) (hpiece' : mark ∉ piece')
    (h : piece ++ mark :: rest = piece' ++ mark :: rest') : piece = piece' ∧ rest = rest' := by
  have hinside {piece : List Char} (hpiece : mark ∉ piece) : ∀ c ∈ piece, (c != mark) = true :=
    fun c hc => bne_iff_ne.mpr fun hsame => hpiece (hsame ▸ hc)
  have hends (rest : List Char) : Stops (· != mark) (mark :: rest) :=
    stops_cons (p := (· != mark)) (bne_self_eq_false mark) rest
  obtain ⟨hsame, hrest⟩ :=
    cut_unique (hinside hpiece) (hinside hpiece') (hends rest) (hends rest') h
  exact ⟨hsame, (List.cons.inj hrest).2⟩

/-! ## Numbers -/

theorem isDigit_of_mem_number {n : ℕ} {c : Char} (h : c ∈ (toString n).toList) :
    c.isDigit = true := by
  rw [Nat.toString_eq_repr, Nat.toList_repr] at h
  exact Nat.isDigit_of_mem_toDigits (by decide) (by decide) h

theorem number_injective {n n' : ℕ} (h : (toString n).toList = (toString n').toList) : n = n' := by
  rw [Nat.toString_eq_repr, Nat.toString_eq_repr, Nat.toList_repr, Nat.toList_repr] at h
  calc
    n = Nat.ofDigitChars 10 (Nat.toDigits 10 n) 0 := Nat.ofDigitChars_ten_toDigits.symm
    _ = Nat.ofDigitChars 10 (Nat.toDigits 10 n') 0 := by rw [h]
    _ = n' := Nat.ofDigitChars_ten_toDigits

theorem number_ne_nil (n : ℕ) : (toString n).toList ≠ [] := by
  rw [Nat.toString_eq_repr, Nat.toList_repr]
  exact Nat.toDigits_ne_nil

/-- A number ends where the digits do. -/
theorem number_cut {n n' : ℕ} (hrest : Stops Char.isDigit rest) (hrest' : Stops Char.isDigit rest')
    (h : (toString n).toList ++ rest = (toString n').toList ++ rest') : n = n' ∧ rest = rest' := by
  obtain ⟨hdigits, hrests⟩ := cut_unique (fun _ => isDigit_of_mem_number)
    (fun _ => isDigit_of_mem_number) hrest hrest' h
  exact ⟨number_injective hdigits, hrests⟩

end SinFrontend
