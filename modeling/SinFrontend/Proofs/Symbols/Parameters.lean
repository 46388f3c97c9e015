import SinFrontend.Proofs.Symbols.Clashes

/-!
# Parameters at the start of a body

The parameters of a function are registered in its scope one after the other, before its body is
collected. Registration stops at the first parameter that repeats an earlier one: those behind it
are not looked at, and the body is collected without them.

* `Symbol.IsParameterOf`: the symbol of a parameter of a scope.
* `SymbolTable.Registers`: the symbols of a scope are those of some parameters.
* `registers_insertParameters`: parameters are registered up to the first that repeats a signature.
* `registers_bodyStart`: what the table has of the parameters where the body of a function starts.
* `not_forall_parameter_present`: a parameter behind a repeated one has no symbol there.
-/

namespace SinFrontend

/-- A symbol of a scope that stands for a parameter with a signature. -/
structure Symbol.IsParameterOf (symbol : Symbol) (scope : List String) (signature : Signature) :
    Prop where
  scope_eq : symbol.scope = scope
  signature_eq : symbol.signature = signature
  isParameter : symbol.isParameter = true
  defined : symbol.defined = true
  initialized : symbol.initialized = true

namespace SymbolTable

/-- The symbols that a table has in a scope are those of parameters with the given signatures. -/
structure Registers (table : SymbolTable) (scope : List String) (signatures : List Signature) :
    Prop where
  present : ∀ signature ∈ signatures, ∃ symbol,
    table.get? (Symbol.keyAt scope signature) = some symbol ∧ symbol.IsParameterOf scope signature
  absent : ∀ signature : Signature, IsIdentifier signature.1 → signature ∉ signatures →
    table.get? (Symbol.keyAt scope signature) = none

variable {table after : SymbolTable} {symbol : Symbol} {scope : List String}
  {signatures : List Signature}

theorem get?_insert (h : table.insert symbol = .ok after) (key : String)
    (hfree : table.get? symbol.key = none) :
    after.get? key = if key = symbol.key then some symbol else table.get? key := by
  rw [insert, hfree] at h
  cases h
  rw [get?, List.lookup_append, List.lookup_cons, ← get?]
  by_cases hkey : key = symbol.key
  · rw [hkey, hfree, if_pos rfl, beq_self_eq_true]
    rfl
  · rw [if_neg hkey, beq_eq_false_iff_ne.mpr hkey]
    exact Option.or_none

theorem Registers.insert (h : table.Registers scope signatures)
    (hnames : ∀ signature ∈ signatures, IsIdentifier signature.1)
    (hname : IsIdentifier symbol.name) (hsymbol : symbol.IsParameterOf scope symbol.signature)
    (hnew : symbol.signature ∉ signatures) :
    ∃ after, table.insert symbol = .ok after ∧
      after.Registers scope (signatures ++ [symbol.signature]) := by
  have hkey : symbol.key = Symbol.keyAt scope symbol.signature := by
    rw [Symbol.key_eq_keyAt, hsymbol.scope_eq]
  have hfree : table.get? symbol.key = none := hkey ▸ h.absent symbol.signature hname hnew
  obtain ⟨after, hafter⟩ : ∃ after, table.insert symbol = .ok after :=
    ⟨_, if_neg (by rw [hfree]; simp)⟩
  have hget (signature : Signature) (hidentifier : IsIdentifier signature.1) :
      after.get? (Symbol.keyAt scope signature) = if signature = symbol.signature then some symbol
        else table.get? (Symbol.keyAt scope signature) := by
    rw [get?_insert hafter _ hfree, hkey]
    exact if_congr (Symbol.keyAt_inj hidentifier hname) rfl rfl
  refine ⟨after, hafter, ?_, fun signature hidentifier hother => ?_⟩
  · rw [List.forall_mem_append, List.forall_mem_singleton]
    refine ⟨fun signature hmem => ?_, symbol, ?_, hsymbol⟩
    · have hne : signature ≠ symbol.signature := fun hsame => hnew (hsame ▸ hmem)
      rw [hget signature (hnames signature hmem), if_neg hne]
      exact h.present signature hmem
    · rw [hget symbol.signature hname, if_pos rfl]
  · rw [List.mem_append, List.mem_singleton, not_or] at hother
    rw [hget signature hidentifier, if_neg hother.2]
    exact h.absent signature hidentifier hother.1

end SymbolTable

namespace Collector

/-! ## Registering parameters -/

/-- Parameters are registered up to the first that repeats the signature of an earlier one, and that
    one is reported. -/
theorem registers_insertParameters {table : SymbolTable} {scope : List String}
    {before : List Signature} (h : table.Registers scope before) (hdistinct : before.Nodup)
    (hnames : ∀ signature ∈ before, IsIdentifier signature.1)
    {params : List Statement} (hparams : ∀ param ∈ params, param.Named) :
    ∃ taken left : List Statement, params = taken ++ left ∧
      (before ++ taken.filterMap Statement.parameter?).Nodup ∧
      (insertParameters scope table params).1.Registers scope
        (before ++ taken.filterMap Statement.parameter?) ∧
      (left = [] ∧ (insertParameters scope table params).2 = none ∨
        ∃ param behind signature, left = param :: behind ∧ param.parameter? = some signature ∧
          signature ∈ before ++ taken.filterMap Statement.parameter? ∧
          (insertParameters scope table params).2 =
            some ⟨.duplicateSymbol signature.1, param.line⟩) := by
  induction params generalizing table before with
  | nil =>
    refine ⟨[], [], rfl, ?_, ?_, .inl ⟨rfl, rfl⟩⟩
    · rwa [List.filterMap_nil, List.append_nil]
    · rwa [List.filterMap_nil, List.append_nil]
  | cons param rest ih =>
    rw [List.forall_mem_cons] at hparams
    obtain ⟨form, line⟩ := param
    cases form with
    | declaration type name value isFunction isStruct params =>
      have hname : IsIdentifier name := (Statement.named_declaration.mp hparams.1).1
      let symbol : Symbol :=
        { name, scope, type, kind := .variable, line, isParameter := true, defined := true,
          initialized := true }
      have hsymbol : symbol.IsParameterOf scope symbol.signature := ⟨rfl, rfl, rfl, rfl, rfl⟩
      rw [insertParameters]
      by_cases hseen : symbol.signature ∈ before
      · obtain ⟨existing, hget, -⟩ := h.present symbol.signature hseen
        have hrefused : table.insert symbol = .error ⟨.duplicateSymbol name, line⟩ := by
          rw [SymbolTable.insert, Symbol.key_eq_keyAt, hget]
          rfl
        rw [hrefused]
        refine ⟨[], _, rfl, ?_, ?_, .inr ⟨_, rest, symbol.signature, rfl, rfl, ?_, rfl⟩⟩
        · rwa [List.filterMap_nil, List.append_nil]
        · rwa [List.filterMap_nil, List.append_nil]
        · rwa [List.filterMap_nil, List.append_nil]
      · obtain ⟨after, hafter, hregisters⟩ := h.insert hnames hname hsymbol hseen
        have hdistinct' : (before ++ [symbol.signature]).Nodup := by
          rw [← List.concat_eq_append]
          exact List.Nodup.concat hseen hdistinct
        have hnames' : ∀ signature ∈ before ++ [symbol.signature], IsIdentifier signature.1 := by
          rw [List.forall_mem_append, List.forall_mem_singleton]
          exact ⟨hnames, hname⟩
        obtain ⟨taken, left, rfl, hresult⟩ := ih hregisters hdistinct' hnames' hparams.2
        rw [hafter]
        refine ⟨⟨.declaration type name value isFunction isStruct params, line⟩ :: taken, left,
          rfl, ?_⟩
        rwa [List.filterMap_cons_some (show Statement.parameter? _ = some symbol.signature from rfl),
          List.append_cons]
    | _ =>
      obtain ⟨taken, left, rfl, hresult⟩ := ih h hdistinct hnames hparams.2
      exact ⟨_ :: taken, left, rfl, hresult⟩

/-! ## Where a body starts -/

/-- The collector where the body of a function starts, when the function itself has been defined. -/
def bodyStart (c : Collector) (name : String) (params : List Statement) : Collector :=
  let inside := c.enterScope name
  { inside with table := (insertParameters inside.scope inside.table params).1 }

variable {c : Collector}

/-- A scope that has just been opened has no symbols. -/
theorem Steady.registers_enterScope (h : c.Steady) (name : String) :
    (c.enterScope name).table.Registers (c.enterScope name).scope [] := by
  obtain ⟨outer, layer, frames, hlayered⟩ := h
  refine ⟨List.forall_mem_nil _, fun signature hname _ => ?_⟩
  have hmark := (hlayered.enterScope name).get?_mark signature hname
  exact Option.map_eq_none_iff.mp hmark

theorem named_of_parsed {programs : List Block} (hparsed : ∀ program ∈ programs, Parsed program) :
    ∀ statement ∈ programs.flatMap Block.statements, statement.Named := by
  intro statement hstatement
  obtain ⟨program, hmem, hinside⟩ := List.mem_flatMap.mp hstatement
  exact Block.named_iff.mp (hparsed program hmem).named statement hinside

theorem steady_of_parsed {programs : List Block} (hparsed : ∀ program ∈ programs, Parsed program)
    (hpasses : Passes {} (programs.flatMap Block.statements) c) : c.Steady :=
  steady_of_passes hpasses ⟨[], [], none, layered_empty⟩ (named_of_parsed hparsed)

/-- Wherever the collector stands in programs, it visits a function whose definition is accepted by
    collecting the body from a table in which the parameters up to the first that repeats a
    signature are defined and initialized, and those behind it are missing. That one is reported
    behind the body. -/
theorem registers_bodyStart {programs : List Block} (hparsed : ∀ program ∈ programs, Parsed program)
    (hpasses : Passes {} (programs.flatMap Block.statements) c)
    {name : String} {returnType : DataType} {params : List Statement} {body : Block} {line : ℕ}
    (hnamed : Statement.Named ⟨.functionDefinition name returnType params body, line⟩)
    {table : SymbolTable} (hdefine : define c.table
      { name, scope := c.scope, type := returnType, kind := .function, line, initialized := true } =
        .ok table) :
    let start := bodyStart { c with table } name params
    ∃ (taken left : List Statement) (clash : Option CompileError),
      c.visit ⟨.functionDefinition name returnType params body, line⟩ =
        clash.elim (start.collect body).exitScope (start.collect body).exitScope.report ∧
      start.scope = c.scope ++ [name] ∧ params = taken ++ left ∧
      (taken.filterMap Statement.parameter?).Nodup ∧
      start.table.Registers start.scope (taken.filterMap Statement.parameter?) ∧
      (left = [] ∧ clash = none ∨
        ∃ param behind signature, left = param :: behind ∧ param.parameter? = some signature ∧
          signature ∈ taken.filterMap Statement.parameter? ∧
          clash = some ⟨.duplicateSymbol signature.1, param.line⟩) := by
  intro start
  obtain ⟨hname, hparams, -⟩ := Statement.named_functionDefinition.mp hnamed
  have hsteady : Steady { c with table } := (steady_of_parsed hparsed hpasses).define rfl hname hdefine
  obtain ⟨taken, left, hsplit, hdistinct, hregisters, hclash⟩ := registers_insertParameters
    (hsteady.registers_enterScope name) List.nodup_nil (List.forall_mem_nil _) hparams
  refine ⟨taken, left, (insertParameters _ _ params).2, ?_, rfl, hsplit, hdistinct, hregisters, hclash⟩
  rw [visit, visitForm, hdefine]
  dsimp only [start, bodyStart]
  generalize insertParameters _ _ params = result
  obtain ⟨table, clash⟩ := result
  cases clash <;> rfl

/-- The signatures of the parameters that a function is defined with. -/
def functionParameters? : Statement → Option (List (Option Signature))
  | ⟨.functionDefinition _ _ params _, _⟩ => some (params.map Statement.parameter?)
  | _ => none

/-- The function `def int f(decl int a, decl int a, decl int b) { return 1; }` of a program. -/
theorem exists_parsed_repeatedParameter : ∃ (program : Block) (name : String)
    (returnType : DataType) (params : List Statement) (body : Block) (line : ℕ)
    (table : SymbolTable), Parsed program ∧
      program.statements = [⟨.functionDefinition name returnType params body, line⟩] ∧
      Statement.Named ⟨.functionDefinition name returnType params body, line⟩ ∧
      params.map Statement.parameter? =
        [some ("a", "iGM"), some ("a", "iGM"), some ("b", "iGM")] ∧
      define ({} : Collector).table
        { name, scope := [], type := returnType, kind := .function, line, initialized := true } =
          .ok table := by
  have hreads : (Parser.programOf?
      "def int f(decl int a, decl int a, decl int b) \x7b return 1; \x7d").any (fun program =>
        program.statements.map functionParameters? ==
          [some [some ("a", "iGM"), some ("a", "iGM"), some ("b", "iGM")]]) = true := by
    decide +kernel
  obtain ⟨program, hparsed, htest⟩ := exists_parsed hreads
  obtain ⟨statement, hstatements, hparams⟩ := List.map_eq_singleton_iff.mp (beq_iff_eq.mp htest)
  have hnamed := Block.named_iff.mp hparsed.named
  rw [hstatements, List.forall_mem_singleton] at hnamed
  unfold functionParameters? at hparams
  split at hparams
  next name returnType params body line =>
    exact ⟨program, name, returnType, params, body, line, _, hparsed, hstatements, hnamed,
      Option.some.inj hparams, rfl⟩
  · cases hparams

/-- If the second parameter repeats the first, only the first is taken. -/
theorem taken_of_repeated {taken left : List Statement} {signature other : Signature}
    {clash : Option CompileError}
    (hparams : (taken ++ left).map Statement.parameter? =
      [some signature, some signature, some other])
    (hdistinct : (taken.filterMap Statement.parameter?).Nodup)
    (hleft : left = [] ∧ clash = none ∨
      ∃ param behind signature, left = param :: behind ∧ param.parameter? = some signature ∧
        signature ∈ taken.filterMap Statement.parameter? ∧
        clash = some ⟨.duplicateSymbol signature.1, param.line⟩) :
    taken.filterMap Statement.parameter? = [signature] := by
  rcases taken with _ | ⟨first, _ | ⟨second, rest⟩⟩
  · rcases hleft with ⟨rfl, -⟩ | ⟨_, _, _, -, -, hmem, -⟩
    · cases hparams
    · cases hmem
  · rw [List.filterMap_cons_some (List.cons.inj hparams).1, List.filterMap_nil]
  · obtain ⟨hfirst, hrest⟩ := List.cons.inj hparams
    rw [List.filterMap_cons_some hfirst, List.filterMap_cons_some (List.cons.inj hrest).1] at hdistinct
    simp at hdistinct

/-- Behind the repeated parameter `a`, the parameter `b` is missing. -/
theorem registers_bodyStart_repeated : ∃ (program : Block) (name : String)
    (returnType : DataType) (params : List Statement) (body : Block) (line : ℕ)
    (table : SymbolTable), Parsed program ∧
      program.statements = [⟨.functionDefinition name returnType params body, line⟩] ∧
      params.map Statement.parameter? = [some ("a", "iGM"), some ("a", "iGM"), some ("b", "iGM")] ∧
      define {}
        { name, scope := [], type := returnType, kind := .function, line, initialized := true } =
          .ok table ∧
      (bodyStart { ({} : Collector) with table } name params).table.Registers [name]
        [("a", "iGM")] := by
  obtain ⟨program, name, returnType, params, body, line, table, hparsed, hstatements, hnamed,
    hparams, hdefine⟩ := exists_parsed_repeatedParameter
  have hone : ∀ other ∈ [program], Parsed other := List.forall_mem_singleton.mpr hparsed
  obtain ⟨taken, left, clash, -, -, hsplit, hdistinct, hregisters, hleft⟩ :=
    registers_bodyStart hone .here hnamed hdefine
  refine ⟨program, name, returnType, params, body, line, table, hparsed, hstatements, hparams,
    hdefine, ?_⟩
  rw [taken_of_repeated (hsplit ▸ hparams) hdistinct hleft] at hregisters
  exact hregisters

/-- Not every parameter of a function is registered where its body starts. -/
theorem not_forall_parameter_present :
    ¬ ∀ (programs : List Block), (∀ program ∈ programs, Parsed program) →
      ∀ (c : Collector), Passes {} (programs.flatMap Block.statements) c →
      ∀ (name : String) (returnType : DataType) (params : List Statement) (body : Block) (line : ℕ)
        (table : SymbolTable),
      ⟨.functionDefinition name returnType params body, line⟩ ∈ programs.flatMap Block.statements →
      define c.table
        { name, scope := c.scope, type := returnType, kind := .function, line,
          initialized := true } = .ok table →
      let start := bodyStart { c with table } name params
      ∀ signature ∈ params.filterMap Statement.parameter?, ∃ symbol,
        start.table.get? (Symbol.keyAt start.scope signature) = some symbol ∧
          symbol.IsParameterOf start.scope signature := by
  intro hall
  obtain ⟨program, name, returnType, params, body, line, table, hparsed, hstatements, hnamed,
    hparams, hdefine⟩ := exists_parsed_repeatedParameter
  have hsteady : Steady {} := ⟨[], [], none, layered_empty⟩
  obtain ⟨hname, hnamedParams, -⟩ := Statement.named_functionDefinition.mp hnamed
  obtain ⟨taken, left, hsplit, hdistinct, hregisters, hleft⟩ := registers_insertParameters
    ((hsteady.define rfl hname hdefine).registers_enterScope name) List.nodup_nil
    (List.forall_mem_nil _) hnamedParams
  rw [List.nil_append, taken_of_repeated (hsplit ▸ hparams) hdistinct hleft] at hregisters
  have hmem : ("b", "iGM") ∈ params.filterMap Statement.parameter? := by
    rw [List.mem_filterMap]
    refine List.mem_map.mp ?_
    rw [hparams]
    simp
  obtain ⟨symbol, hpresent, -⟩ := hall [program] (List.forall_mem_singleton.mpr hparsed) {} .here
    name returnType params body line table (by simp [hstatements]) hdefine _ hmem
  have hidentifier : IsIdentifier "b" := ⟨'b', [], rfl, rfl, List.forall_mem_nil _⟩
  have habsent := hregisters.absent ("b", "iGM") hidentifier (by decide)
  rw [bodyStart, habsent] at hpresent
  cases hpresent

end Collector

end SinFrontend
