import Mathlib.Data.List.Nodup
import SinFrontend.Symbol.Table

/-!
# A symbol table is a stack of frames

A table keeps its symbols under their keys in one place, and the keys of each open scope in another.
To a client it is a frame of global symbols below a stack of frames, one for each open scope, with
the symbols themselves in the frames, in the order of insertion.

* `FrameStack`: the frames, and what inserting, updating, opening and closing mean for them.
* `Represents`: the table that keeps the symbols of a stack of frames.
* `Represents.serve`: a table and the frames that it represents answer a request alike, and then
  the table represents the frames again.
* `answers_eq_frames`: from the empty table on, whatever is requested, the answers and everything
  that can be looked up are those of the frames.
-/

namespace SinFrontend

/-! ## Requests -/

/-- What may change of a symbol while it is in a table. -/
structure Symbol.Status where
  kind : SymbolKind
  isParameter : Bool
  defined : Bool
  initialized : Bool
  line : Nat

/-- A symbol with another status. Name, scope and type, which make its key, stay. -/
def Symbol.setStatus (symbol : Symbol) (status : Symbol.Status) : Symbol :=
  { symbol with
    kind := status.kind
    isParameter := status.isParameter
    defined := status.defined
    initialized := status.initialized
    line := status.line }

@[simp] theorem Symbol.key_setStatus (symbol : Symbol) (status : Symbol.Status) :
    (symbol.setStatus status).key = symbol.key := rfl

namespace SymbolTable

/-- What a client can request. -/
inductive Request where
  | insert (symbol : Symbol)
  | enterScope
  | exitScope
  /-- Changes the status of the symbol under a key, in view of the symbol. -/
  | update (key : String) (change : Symbol → Symbol.Status)

/-- What a client is told. -/
inductive Answer where
  | done
  | refused (error : CompileError)
  | removed (symbols : List Symbol)
  | found (found : Bool)

/-- The answers to requests, one after the other, and the state behind them. -/
def answers {State : Type} (serve : State → Request → Answer × State) (state : State) :
    List Request → List Answer × State
  | [] => ([], state)
  | request :: rest =>
    let (answer, state) := serve state request
    let (answers, state) := answers serve state rest
    (answer :: answers, state)

end SymbolTable

/-! ## Frames -/

/-- A frame of global symbols below a stack of frames. Each frame is in the order of insertion. -/
structure FrameStack where
  global : List Symbol := []
  /-- The frames of the open scopes, the innermost first. -/
  opened : List (List Symbol) := []

namespace FrameStack

open SymbolTable (Request Answer answers)

/-- All frames, the innermost first. -/
def frames (stack : FrameStack) : List (List Symbol) :=
  stack.opened ++ [stack.global]

/-- The symbols of all frames, the innermost frame last. -/
def symbols (stack : FrameStack) : List Symbol :=
  stack.frames.reverse.flatten

/-- Some frame holds a symbol with a key. -/
def Holds (stack : FrameStack) (key : String) : Prop :=
  ∃ frame ∈ stack.frames, ∃ symbol ∈ frame, symbol.key = key

instance (stack : FrameStack) (key : String) : Decidable (stack.Holds key) :=
  inferInstanceAs (Decidable (∃ frame ∈ stack.frames, ∃ symbol ∈ frame, symbol.key = key))

/-- Adds a symbol to the innermost frame. -/
def push (stack : FrameStack) (symbol : Symbol) : FrameStack :=
  match stack.opened with
  | [] => { stack with global := stack.global ++ [symbol] }
  | frame :: rest => { stack with opened := (frame ++ [symbol]) :: rest }

/-- Changes the status of the symbols under a key. -/
def update (stack : FrameStack) (key : String) (change : Symbol → Symbol.Status) : FrameStack :=
  let touch (symbol : Symbol) : Symbol :=
    if symbol.key = key then symbol.setStatus (change symbol) else symbol
  { global := stack.global.map touch, opened := stack.opened.map (List.map touch) }

/-- What a request means for frames. -/
def serve (stack : FrameStack) : Request → Answer × FrameStack
  | .insert symbol =>
    if stack.Holds symbol.key then (.refused ⟨.duplicateSymbol symbol.name, symbol.line⟩, stack)
    else (.done, stack.push symbol)
  | .enterScope => (.done, { stack with opened := [] :: stack.opened })
  | .exitScope =>
    match stack.opened with
    | [] => (.removed [], stack)
    | frame :: rest => (.removed frame.reverse, { stack with opened := rest })
  | .update key change => (.found (decide (stack.Holds key)), stack.update key change)

variable {stack : FrameStack} {key : String}

theorem symbols_eq (stack : FrameStack) :
    stack.symbols = stack.global ++ stack.opened.reverse.flatten := by
  simp [symbols, frames]

theorem holds_iff : stack.Holds key ↔ ∃ symbol ∈ stack.symbols, symbol.key = key := by
  simp only [Holds, symbols, List.mem_flatten, List.mem_reverse]
  constructor
  · rintro ⟨frame, hframe, symbol, hsymbol, hkey⟩
    exact ⟨symbol, ⟨frame, hframe, hsymbol⟩, hkey⟩
  · rintro ⟨symbol, ⟨frame, hframe, hsymbol⟩, hkey⟩
    exact ⟨frame, hframe, symbol, hsymbol, hkey⟩

theorem symbols_push (stack : FrameStack) (symbol : Symbol) :
    (stack.push symbol).symbols = stack.symbols ++ [symbol] := by
  obtain ⟨global, opened⟩ := stack
  cases opened with
  | nil => simp [push, symbols_eq]
  | cons frame rest => simp [push, symbols_eq]

theorem symbols_update (stack : FrameStack) (key : String) (change : Symbol → Symbol.Status) :
    (stack.update key change).symbols = stack.symbols.map fun symbol =>
      if symbol.key = key then symbol.setStatus (change symbol) else symbol := by
  simp [update, symbols_eq, List.map_flatten]

/-- A global symbol stays global, under its name, scope and type. -/
theorem exists_global_serve {symbol : Symbol} (h : symbol ∈ stack.global) (request : Request) :
    ∃ later ∈ (stack.serve request).2.global,
      later.name = symbol.name ∧ later.scope = symbol.scope ∧ later.type = symbol.type := by
  have hstays : ∀ global, stack.global ⊆ global → ∃ later ∈ global,
      later.name = symbol.name ∧ later.scope = symbol.scope ∧ later.type = symbol.type :=
    fun global hglobal => ⟨symbol, hglobal h, rfl, rfl, rfl⟩
  cases request with
  | insert other =>
    rw [serve]
    split
    · exact hstays _ (List.Subset.refl _)
    · apply hstays
      rw [push]
      split
      · exact List.subset_append_left _ _
      · exact List.Subset.refl _
  | enterScope => exact hstays _ (List.Subset.refl _)
  | exitScope =>
    rw [serve]
    split
    · exact hstays _ (List.Subset.refl _)
    · exact hstays _ (List.Subset.refl _)
  | update key change =>
    refine ⟨_, List.mem_map_of_mem h, ?_⟩
    split
    · exact ⟨rfl, rfl, rfl⟩
    · exact ⟨rfl, rfl, rfl⟩

theorem exists_global_answers {symbol : Symbol} (h : symbol ∈ stack.global)
    (requests : List Request) :
    ∃ later ∈ (answers serve stack requests).2.global,
      later.name = symbol.name ∧ later.scope = symbol.scope ∧ later.type = symbol.type := by
  induction requests generalizing stack symbol with
  | nil => exact ⟨symbol, h, rfl, rfl, rfl⟩
  | cons request rest ih =>
    obtain ⟨next, hnext, hname, hscope, htype⟩ := exists_global_serve h request
    obtain ⟨later, hlater, hname', hscope', htype'⟩ := ih hnext
    exact ⟨later, hlater, hname'.trans hname, hscope'.trans hscope, htype'.trans htype⟩

end FrameStack

namespace SymbolTable

/-- What a request does to a table. -/
def serve (table : SymbolTable) : Request → Answer × SymbolTable
  | .insert symbol =>
    match table.insert symbol with
    | .ok table => (.done, table)
    | .error error => (.refused error, table)
  | .enterScope => (.done, table.enterScope)
  | .exitScope => (.removed table.exitScope.1, table.exitScope.2)
  | .update key change =>
    (.found (table.get? key).isSome,
      table.modify key fun symbol => symbol.setStatus (change symbol))

/-! ## Tables that represent frames -/

/-- A table that keeps the symbols of frames under their keys, which are distinct, and the keys of
    the frames of open scopes, the latest key first. -/
structure Represents (table : SymbolTable) (stack : FrameStack) : Prop where
  entries : table.entries = stack.symbols.map fun symbol => (symbol.key, symbol)
  frames : table.frames = stack.opened.map fun frame => (frame.map Symbol.key).reverse
  distinct : (stack.symbols.map Symbol.key).Nodup

theorem represents_empty : empty.Represents {} :=
  ⟨rfl, rfl, List.nodup_nil⟩

theorem lookup_keyed (symbols : List Symbol) (key : String) :
    (symbols.map fun symbol => (symbol.key, symbol)).lookup key =
      symbols.find? fun symbol => symbol.key = key := by
  induction symbols with
  | nil => rfl
  | cons symbol rest ih =>
    rw [List.map_cons, List.lookup_cons, List.find?_cons, ih]
    by_cases hkey : symbol.key = key
    · simp [hkey]
    · rw [decide_eq_false hkey, beq_eq_false_iff_ne.mpr (Ne.symm hkey)]

namespace Represents

variable {table : SymbolTable} {stack : FrameStack}

/-! ## Looking up -/

theorem get?_eq (h : table.Represents stack) (key : String) :
    table.get? key = stack.symbols.find? fun symbol => symbol.key = key := by
  rw [get?, h.entries, lookup_keyed]

theorem isSome_get? (h : table.Represents stack) (key : String) :
    (table.get? key).isSome = decide (stack.Holds key) := by
  rw [h.get?_eq, Bool.eq_iff_iff, List.find?_isSome, decide_eq_true_eq, FrameStack.holds_iff]
  simp only [decide_eq_true_eq]

/-- A symbol is found under its key. -/
theorem get?_key (h : table.Represents stack) {symbol : Symbol} (hmem : symbol ∈ stack.symbols) :
    table.get? symbol.key = some symbol := by
  rw [h.get?_eq]
  cases hfound : stack.symbols.find? fun other => other.key = symbol.key with
  | none => simpa using List.find?_eq_none.mp hfound symbol hmem
  | some other =>
    have hkey : other.key = symbol.key := by simpa using List.find?_some hfound
    have hother := List.mem_of_find?_eq_some hfound
    rw [List.inj_on_of_nodup_map h.distinct hother hmem hkey]

/-! ## One request -/

theorem insert_held (h : table.Represents stack) {symbol : Symbol}
    (hheld : stack.Holds symbol.key) :
    table.insert symbol = .error ⟨.duplicateSymbol symbol.name, symbol.line⟩ := by
  have hsome := h.isSome_get? symbol.key
  rw [decide_eq_true hheld] at hsome
  exact if_pos hsome

theorem insert_free (h : table.Represents stack) {symbol : Symbol}
    (hfree : ¬ stack.Holds symbol.key) :
    ∃ table', table.insert symbol = .ok table' ∧ table'.Represents (stack.push symbol) := by
  have hsome := h.isSome_get? symbol.key
  rw [decide_eq_false hfree] at hsome
  refine ⟨_, if_neg (by simp [hsome]), ?_, ?_, ?_⟩
  · rw [FrameStack.symbols_push, List.map_append, ← h.entries]
    rfl
  · dsimp only
    rw [h.frames]
    obtain ⟨global, opened⟩ := stack
    cases opened with
    | nil => rfl
    | cons frame rest => simp [FrameStack.push]
  · rw [FrameStack.holds_iff] at hfree
    rw [FrameStack.symbols_push, List.map_append, List.map_singleton, ← List.concat_eq_append]
    exact List.Nodup.concat (by simpa using hfree) h.distinct

theorem enterScope (h : table.Represents stack) :
    table.enterScope.Represents { stack with opened := [] :: stack.opened } := by
  have hsymbols : ({ stack with opened := [] :: stack.opened } : FrameStack).symbols =
      stack.symbols := by
    simp [FrameStack.symbols_eq]
  refine ⟨hsymbols ▸ h.entries, ?_, hsymbols ▸ h.distinct⟩
  rw [SymbolTable.enterScope, h.frames]
  rfl

/-- Closing a scope returns its frame, the latest symbol first, and keeps the other frames. -/
theorem exitScope {global frame : List Symbol} {rest : List (List Symbol)}
    (h : table.Represents ⟨global, frame :: rest⟩) :
    table.exitScope.1 = frame.reverse ∧ table.exitScope.2.Represents ⟨global, rest⟩ := by
  let stack : FrameStack := ⟨global, frame :: rest⟩
  let outer : FrameStack := ⟨global, rest⟩
  have hsymbols : stack.symbols = outer.symbols ++ frame := by
    simp [stack, outer, FrameStack.symbols_eq]
  have hframes : table.frames = (frame.map Symbol.key).reverse ::
      rest.map fun frame => (frame.map Symbol.key).reverse := h.frames
  have hdistinct : (outer.symbols.map Symbol.key ++ frame.map Symbol.key).Nodup := by
    rw [← List.map_append, ← hsymbols]
    exact h.distinct
  have hexit : table.exitScope = ((frame.map Symbol.key).reverse.filterMap table.get?,
      { entries := table.entries.filter fun entry =>
          !(frame.map Symbol.key).reverse.contains entry.1,
        frames := rest.map fun frame => (frame.map Symbol.key).reverse }) := by
    rw [SymbolTable.exitScope, hframes]
  rw [hexit]
  refine ⟨?_, ?_, rfl, hdistinct.of_append_left⟩
  · have hfound : (frame.map Symbol.key).filterMap table.get? = frame := by
      rw [List.filterMap_map, List.filterMap_eq_map_iff_forall_eq_some.mpr, List.map_id]
      intro symbol hmem
      exact h.get?_key (hsymbols ▸ List.mem_append_right _ hmem)
    rw [List.filterMap_reverse, hfound]
  · show table.entries.filter _ = _
    rw [h.entries, hsymbols, List.filter_map, List.filter_append, List.filter_eq_self.mpr,
      List.filter_eq_nil_iff.mpr, List.append_nil]
    · intro symbol hmem
      simpa using ⟨symbol, hmem, rfl⟩
    · intro symbol hmem
      have hapart := (List.nodup_append.mp hdistinct).2.2 symbol.key (List.mem_map_of_mem hmem)
      simpa using fun other hother hkey => hapart _ (List.mem_map_of_mem hother) hkey.symm

theorem update (h : table.Represents stack) (key : String) (change : Symbol → Symbol.Status) :
    (table.modify key fun symbol => symbol.setStatus (change symbol)).Represents
      (stack.update key change) := by
  have hkeys : ∀ symbol : Symbol,
      (if symbol.key = key then symbol.setStatus (change symbol) else symbol).key = symbol.key := by
    intro symbol
    split <;> rfl
  refine ⟨?_, ?_, ?_⟩
  · rw [FrameStack.symbols_update, SymbolTable.modify, h.entries, List.map_map, List.map_map]
    apply List.map_congr_left
    intro symbol _
    by_cases hkey : symbol.key = key
    · simp [hkey]
    · simp [hkey]
  · rw [SymbolTable.modify, h.frames, FrameStack.update, List.map_map]
    apply List.map_congr_left
    intro frame _
    rw [Function.comp_apply, List.map_map]
    exact congrArg List.reverse (List.map_congr_left fun symbol _ => (hkeys symbol).symm)
  · rw [FrameStack.symbols_update, List.map_map]
    exact (List.map_congr_left fun symbol _ => hkeys symbol) ▸ h.distinct

/-- A table answers a request as its frames do, and represents them behind it. -/
theorem serve (h : table.Represents stack) (request : Request) :
    (table.serve request).1 = (stack.serve request).1 ∧
      (table.serve request).2.Represents (stack.serve request).2 := by
  cases request with
  | insert symbol =>
    by_cases hheld : stack.Holds symbol.key
    · simpa [SymbolTable.serve, FrameStack.serve, h.insert_held hheld, hheld] using h
    · obtain ⟨table', hinsert, hrepresents⟩ := h.insert_free hheld
      simpa [SymbolTable.serve, FrameStack.serve, hinsert, hheld] using hrepresents
  | enterScope => exact ⟨rfl, h.enterScope⟩
  | exitScope =>
    obtain ⟨global, opened⟩ := stack
    cases opened with
    | nil =>
      have hexit : table.exitScope = ([], table) := by
        rw [SymbolTable.exitScope, h.frames]
        rfl
      simpa [SymbolTable.serve, FrameStack.serve, hexit] using h
    | cons frame rest =>
      obtain ⟨hremoved, hrepresents⟩ := h.exitScope
      exact ⟨congrArg Answer.removed hremoved, hrepresents⟩
  | update key change => exact ⟨congrArg Answer.found (h.isSome_get? key), h.update key change⟩

/-! ## Many requests -/

theorem answers (h : table.Represents stack) (requests : List Request) :
    (SymbolTable.answers SymbolTable.serve table requests).1 =
        (SymbolTable.answers FrameStack.serve stack requests).1 ∧
      (SymbolTable.answers SymbolTable.serve table requests).2.Represents
        (SymbolTable.answers FrameStack.serve stack requests).2 := by
  induction requests generalizing table stack with
  | nil => exact ⟨rfl, h⟩
  | cons request rest ih =>
    obtain ⟨hanswer, hrepresents⟩ := h.serve request
    obtain ⟨hanswers, hbehind⟩ := ih hrepresents
    exact ⟨congrArg₂ List.cons hanswer hanswers, hbehind⟩

/-- A global symbol is found under its key whatever is requested. -/
theorem get?_answers_global (h : table.Represents stack) {symbol : Symbol}
    (hmem : symbol ∈ stack.global) (requests : List Request) :
    ∃ later, (SymbolTable.answers SymbolTable.serve table requests).2.get? symbol.key = some later ∧
      later.name = symbol.name ∧ later.scope = symbol.scope ∧ later.type = symbol.type := by
  obtain ⟨later, hlater, hname, hscope, htype⟩ :=
    FrameStack.exists_global_answers hmem requests
  have hkey : later.key = symbol.key := by
    rw [Symbol.key, Symbol.key, hname, hscope, htype]
  have hfound := (h.answers requests).2.get?_key
    (FrameStack.symbols_eq _ ▸ List.mem_append_left _ hlater)
  exact ⟨later, hkey ▸ hfound, hname, hscope, htype⟩

end Represents

/-- Whatever is requested of an empty table, its answers are those of a stack of frames, and so is
    what can be looked up behind them. No key is in the frames twice, and a symbol that is inserted
    while no scope is open is found from then on. -/
theorem answers_eq_frames (requests : List Request) :
    ∃ (told : List Answer) (table : SymbolTable) (stack : FrameStack),
      answers serve empty requests = (told, table) ∧
      answers FrameStack.serve {} requests = (told, stack) ∧
      table.depth = stack.opened.length ∧ table.symbols = stack.symbols ∧
      table.size = stack.symbols.length ∧
      (∀ key, table.get? key = stack.symbols.find? fun symbol => symbol.key = key) ∧
      (∀ (name : String) (scope : List String) (type : DataType),
        table.contains name scope type = true ↔ stack.Holds (Symbol.keyOf name scope type)) ∧
      (∀ entry ∈ table.entries,
        entry.1 = Symbol.keyOf entry.2.name entry.2.scope entry.2.type) ∧
      (stack.symbols.map Symbol.key).Nodup ∧
      ∀ (symbol : Symbol) (after : SymbolTable) (more : List Request),
        table.depth = 0 → table.insert symbol = .ok after →
          ∃ later, (answers serve after more).2.get? symbol.key = some later ∧
            later.name = symbol.name ∧ later.scope = symbol.scope ∧ later.type = symbol.type := by
  obtain ⟨htold, h⟩ := represents_empty.answers requests
  generalize hrun : answers serve empty requests = run at htold h
  generalize hframes : answers FrameStack.serve {} requests = frames at htold h
  obtain ⟨told, table⟩ := run
  obtain ⟨told', stack⟩ := frames
  subst htold
  have hdepth : table.depth = stack.opened.length := by
    rw [depth, h.frames, List.length_map]
  refine ⟨told, table, stack, rfl, rfl, hdepth, ?_, ?_, h.get?_eq, ?_, ?_, h.distinct, ?_⟩
  · rw [symbols, h.entries, List.map_map]
    exact List.map_id _
  · rw [size, h.entries, List.length_map]
  · intro name scope type
    rw [contains, h.isSome_get?, decide_eq_true_eq]
  · intro entry hmem
    rw [h.entries] at hmem
    obtain ⟨symbol, -, rfl⟩ := List.mem_map.mp hmem
    rfl
  · intro symbol after more hclosed hinsert
    have hfree : ¬ stack.Holds symbol.key := fun hheld => by
      rw [h.insert_held hheld] at hinsert
      cases hinsert
    obtain ⟨table', hinsert', hafter⟩ := h.insert_free hfree
    cases hinsert.symm.trans hinsert'
    refine hafter.get?_answers_global ?_ more
    rw [FrameStack.push, List.eq_nil_of_length_eq_zero (hdepth.symm.trans hclosed)]
    exact List.mem_append_right _ (List.mem_singleton_self _)

end SymbolTable

end SinFrontend
