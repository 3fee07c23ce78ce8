import SmartPerf.Data.SortedMap

namespace SmartPerf.Table

open Data List

/-! `SymbolsData`: kernel symbols in a map by address and in the exported columns. -/

structure Symbol where
  addr : Nat
  funcName : Nat
deriving Repr, DecidableEq

structure SymbolsData where
  addrs : List Nat := []
  funcName : List Nat := []
  symbolsMap : List Symbol := []

namespace SymbolsData

variable (symbols : SymbolsData)

def find (addr : Nat) : Option Symbol := symbols.symbolsMap.find? (·.addr = addr)

def updateSymbol (symbol : Symbol) : SymbolsData :=
  let symbolsMap := insertByKey Symbol.addr symbol symbols.symbolsMap
  match symbols.find symbol.addr with
  | none =>
    { addrs := symbols.addrs ++ [symbol.addr], funcName := symbols.funcName ++ [symbol.funcName], symbolsMap }
  | some _ => { symbols with symbolsMap }

/-- `GetFunc`, with `none` for `INVALID_UINT64`; the search is `lower_bound`. -/
def getFunc (addr : Nat) : Option Nat :=
  match symbols.find addr with
  | none => (symbols.symbolsMap.find? (addr ≤ ·.addr)).map Symbol.funcName
  | some symbol => some symbol.funcName

def run (calls : List Symbol) : SymbolsData := calls.foldl updateSymbol {}

end SymbolsData

variable (calls : List Symbol) (addr : Nat)

def firstName : Option Nat :=
  (calls.find? (·.addr = addr)).map Symbol.funcName

def latestName : Option Nat := firstName calls.reverse addr

/-- The name of the greatest registered address up to `addr`. -/
def nameBelow : Option Nat :=
  ((calls.map Symbol.addr).filter (· ≤ addr)).max?.bind (latestName calls)

/-- The name of the least registered address from `addr` on. -/
def nameAbove : Option Nat :=
  ((calls.map Symbol.addr).filter (addr ≤ ·)).min?.bind (latestName calls)

theorem latestName_concat (symbol : Symbol) (addr : Nat) :
    latestName (calls ++ [symbol]) addr =
      if symbol.addr = addr then some symbol.funcName else latestName calls addr := by
  simp only [latestName, firstName]
  split <;> simp_all

theorem firstName_concat (symbol : Symbol) (addr : Nat) :
    firstName (calls ++ [symbol]) addr =
      (firstName calls addr).or (if symbol.addr = addr then some symbol.funcName else none) := by
  simp only [firstName]
  split <;> simp_all

theorem latestName_isSome {calls : List Symbol} {addr : Nat} :
    (latestName calls addr).isSome ↔ addr ∈ calls.map Symbol.addr := by
  simp [latestName, firstName]

theorem nameAbove_of_least {calls : List Symbol} {addr least : Nat} (registered : least ∈ calls.map Symbol.addr)
    (above : addr ≤ least) (first : ∀ other ∈ calls.map Symbol.addr, addr ≤ other → least ≤ other) :
    nameAbove calls addr = latestName calls least := by
  have found : ((calls.map Symbol.addr).filter (addr ≤ ·)).min? = some least := by
    rw [min?_eq_some_iff]
    exact ⟨by simpa using ⟨by simpa using registered, above⟩, fun other member => by grind⟩
  rw [nameAbove, found]
  rfl

namespace SymbolsData

structure Tracks (symbols : SymbolsData) (calls : List Symbol) : Prop where
  sorted : SortedBy Symbol.addr symbols.symbolsMap
  names : ∀ symbol, symbol ∈ symbols.symbolsMap ↔ latestName calls symbol.addr = some symbol.funcName
  lengths : symbols.addrs.length = symbols.funcName.length
  columns : ∀ addr name, (addr, name) ∈ symbols.addrs.zip symbols.funcName ↔ firstName calls addr = some name

variable {symbols : SymbolsData} {calls : List Symbol} {addr : Nat}

theorem Tracks.find_eq (tracks : symbols.Tracks calls) (addr : Nat) :
    symbols.find addr = (latestName calls addr).map (Symbol.mk addr) := by
  apply Option.ext
  intro symbol
  constructor
  · intro found
    have same : symbol.addr = addr := by simpa using find?_some found
    have named := (tracks.names symbol).mp (mem_of_find?_eq_some found)
    subst same
    rw [named]
    rfl
  · intro found
    obtain ⟨name, latest, rfl⟩ := Option.map_eq_some_iff.mp found
    have member := (tracks.names ⟨addr, name⟩).mpr latest
    cases lookup : symbols.find addr with
    | none => simpa using find?_eq_none.mp lookup _ member
    | some other =>
      have same : other.addr = addr := by simpa using find?_some lookup
      rw [eq_of_key_eq tracks.sorted (mem_of_find?_eq_some lookup) member same]

theorem Tracks.updateSymbol (tracks : symbols.Tracks calls) (symbol : Symbol) :
    (symbols.updateSymbol symbol).Tracks (calls ++ [symbol]) := by
  have sorted := @sortedBy_insertByKey _ _ _ symbol tracks.sorted
  have names (other : Symbol) : other ∈ insertByKey Symbol.addr symbol symbols.symbolsMap ↔
      latestName (calls ++ [symbol]) other.addr = some other.funcName := by
    rw [mem_insertByKey tracks.sorted, latestName_concat, tracks.names]
    cases other
    cases symbol
    split <;> grind
  have known : (firstName calls symbol.addr).isSome = (latestName calls symbol.addr).isSome := by
    rw [Bool.eq_iff_iff]
    simp [latestName, firstName]
  have found := tracks.find_eq symbol.addr
  simp only [SymbolsData.updateSymbol, found]
  cases latest : latestName calls symbol.addr with
  | none =>
    refine ⟨sorted, names, by simp [tracks.lengths], fun addr name => ?_⟩
    have unknown : firstName calls symbol.addr = none := by simpa [latest] using known
    rw [Option.map_none, zip_append tracks.lengths, mem_append, tracks.columns, firstName_concat]
    by_cases same : symbol.addr = addr
    · subst same
      simp [unknown, eq_comm]
    · simp [same, Ne.symm same]
  | some name =>
    refine ⟨sorted, names, tracks.lengths, fun addr name => ?_⟩
    rw [Option.map_some, tracks.columns, firstName_concat]
    by_cases same : symbol.addr = addr
    · subst same
      obtain ⟨first, registered⟩ := Option.isSome_iff_exists.mp (known.trans (by rw [latest]; rfl))
      simp [registered]
    · simp [same]

theorem tracks_run (calls : List Symbol) : (run calls).Tracks calls := by
  induction calls using List.reverseRecOn with
  | nil => exact ⟨.nil, by simp [run, latestName, firstName], rfl, by simp [run, firstName]⟩
  | append_singleton calls symbol ih =>
    rw [run, foldl_concat]
    exact ih.updateSymbol symbol

theorem Tracks.getFunc_eq (tracks : symbols.Tracks calls) (addr : Nat) :
    symbols.getFunc addr = nameAbove calls addr := by
  rw [getFunc, tracks.find_eq]
  cases latest : latestName calls addr with
  | some name =>
    have registered := latestName_isSome.mp (by rw [latest]; rfl)
    rw [nameAbove_of_least registered le_rfl (fun _ _ above => above), latest]
    rfl
  | none =>
    cases found : symbols.symbolsMap.find? (addr ≤ ·.addr) with
    | some symbol =>
      obtain ⟨member, above, least⟩ := (find?_from_eq_some_iff tracks.sorted).mp found
      have named := (tracks.names symbol).mp member
      rw [nameAbove_of_least (latestName_isSome.mp (by rw [named]; rfl)) above, named]
      · rfl
      · intro other registered reached
        obtain ⟨name, latest⟩ := Option.isSome_iff_exists.mp (latestName_isSome.mpr registered)
        exact least ⟨other, name⟩ ((tracks.names _).mpr latest) reached
    | none =>
      have empty : (calls.map Symbol.addr).filter (addr ≤ ·) = [] := by
        rw [filter_eq_nil_iff]
        intro other registered reached
        obtain ⟨name, latest⟩ := Option.isSome_iff_exists.mp (latestName_isSome.mpr registered)
        exact find?_eq_none.mp found ⟨other, name⟩ ((tracks.names _).mpr latest) reached
      rw [nameAbove, empty]
      rfl

/-- Lookup takes the nearest address below, and the columns hold the same names as the map. -/
structure Exact (symbols : SymbolsData) (calls : List Symbol) (addr : Nat) : Prop where
  lookup : symbols.getFunc addr = nameBelow calls addr
  columns : ∀ other name, (other, name) ∈ symbols.addrs.zip symbols.funcName ↔ latestName calls other = some name

/-- Lookup takes the nearest address above, and the columns keep the name an address had first. -/
theorem exact_iff (calls : List Symbol) (addr : Nat) :
    (run calls).Exact calls addr ↔
      nameAbove calls addr = nameBelow calls addr ∧ ∀ other, firstName calls other = latestName calls other := by
  have tracks := tracks_run calls
  constructor
  · intro exact
    refine ⟨(tracks.getFunc_eq addr).symm.trans exact.lookup, fun other => Option.ext fun name => ?_⟩
    exact (tracks.columns other name).symm.trans (exact.columns other name)
  · intro ⟨lookup, named⟩
    refine ⟨(tracks.getFunc_eq addr).trans lookup, fun other name => ?_⟩
    rw [tracks.columns, named]

/-- An address inside the first of two functions is given the name of the second. -/
theorem not_exact_insideFirst : ¬ (run [⟨0x1000, 1⟩, ⟨0x2000, 2⟩]).Exact [⟨0x1000, 1⟩, ⟨0x2000, 2⟩] 0x1800 :=
  fun exact => absurd exact.lookup (by decide)

end SymbolsData

end SmartPerf.Table
