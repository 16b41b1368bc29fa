import Stencil.Toml.Scalar

/-!
# Reading TOML

`Toml.read?` takes a document statement by statement. A header opens a table, a
doubled header opens one more table of a list, and a key with a value adds to the
table that is open. No statement may change what another has settled: a value, a
table with a header of its own, or a table made by dotted keys elsewhere.
-/

namespace Stencil.Toml

/-! ## Building tables -/

/-- Changes the table at the end of a path, given how it came about. Tables that
are missing on the way are made; `dotted` tells whether a dotted key leads there. -/
def changeAt {α : Type} (dotted : Bool) (change : TableKind → Entries → Option (α × Entries)) :
    (path : List Text) → TableKind → Entries → Option (α × Entries)
  | [], kind, entries => change kind entries
  | key :: path, _, entries =>
      match Bindings.get? entries key with
      | none => do
          let kind := if dotted then TableKind.dotted else .passed
          let (a, inner) ← changeAt dotted change path kind []
          some (a, Bindings.insert entries key (.table kind inner))
      | some (.value _) => none
      | some (.table kind inner) => do
          if dotted && kind = .header then none
          else
            let (a, inner) ← changeAt dotted change path kind inner
            some (a, Bindings.insert entries key (.table kind inner))
      | some (.tables elements) => do
          let (a, inner) ← changeAt dotted change path .header (elements.getLast?.getD [])
          some (a, Bindings.insert entries key (.tables (elements.dropLast ++ [inner])))

def addValue (path : List Text) (key : Text) (v : Toml) (entries : Entries) : Option Entries :=
  let add (kind : TableKind) (entries : Entries) : Option (Unit × Entries) :=
    if (kind = .dotted) = path.isEmpty || Bindings.contains entries key then none
    else some ((), Bindings.insert entries key (.value v))
  (changeAt true add path .header entries).map Prod.snd

def splitKey (key : Text × List Text) : List Text × Text :=
  match key.2.getLast? with
  | none => ([], key.1)
  | some last => (key.1 :: key.2.dropLast, last)

/-- Tables in braces, whose dotted keys make tables of their own. -/
def closeTables : Entries → List (Text × Toml)
  | [] => []
  | (key, .value v) :: rest => (key, v) :: closeTables rest
  | (key, .table _ inner) :: rest => (key, .inline (closeTables inner)) :: closeTables rest
  | (key, .tables _) :: rest => (key, .array []) :: closeTables rest

/-! ## Values -/

abbrev ValueReader := Text → Option (Toml × Text)

def takePair? (value : ValueReader) (t : Text) :
    Option (((Text × List Text) × Toml) × Text) := do
  let (key, rest) ← takeKey? nestingLimit t
  if nestingLimit ≤ key.2.length + 1 then none
  else
    let (v, rest) ← value (skipSpaces (← takeChar? '=' rest))
    some ((key, v), rest)

/-- The items of an array after its bracket, at most so many. -/
def takeItems? (value : ValueReader) : (bound : Nat) → Text → Option (List Toml × Text)
  | 0, _ => none
  | bound + 1, t =>
      match skipTrivia false t with
      | ']' :: rest => some ([], rest)
      | t => do
          let (v, rest) ← value t
          match skipTrivia false rest with
          | ',' :: rest =>
              let (others, rest) ← takeItems? value bound rest
              some (v :: others, rest)
          | ']' :: rest => some ([v], rest)
          | _ => none

/-- The entries of a table in braces after the first, at most so many. -/
def takeEntries? (value : ValueReader) : (bound : Nat) → Entries → Text → Option (Entries × Text)
  | 0, _, _ => none
  | bound + 1, entries, t => do
      let ((key, v), rest) ← takePair? value t
      let (path, last) := splitKey key
      let entries ← addValue path last v entries
      match skipSpaces rest with
      | ',' :: rest => takeEntries? value bound entries rest
      | '}' :: rest => some (entries, rest)
      | _ => none

def takeInline? (value : ValueReader) (t : Text) : Option (Toml × Text) :=
  match skipSpaces t with
  | '}' :: rest => some (.inline [], rest)
  | t => (takeEntries? value t.length [] t).map fun p => (.inline (closeTables p.1), p.2)

/-- A value in which others nest less deep than a bound. -/
def takeValue? : (depth : Nat) → ValueReader
  | 0, _ => none
  | depth + 1, t =>
      match t with
      | '[' :: t =>
          (takeItems? (fun t => takeValue? depth t) (t.length + 1) t).map fun p => (.array p.1, p.2)
      | '{' :: t => takeInline? (fun t => takeValue? depth t) t
      | '"' :: '"' :: '"' :: t => (takeBlock? '"' t).map fun p => (.string p.1, p.2)
      | '\'' :: '\'' :: '\'' :: t => (takeBlock? '\'' t).map fun p => (.string p.1, p.2)
      | '"' :: t => (takeString? '"' 0 t).map fun p => (.string p.1, p.2)
      | '\'' :: t => (takeString? '\'' 0 t).map fun p => (.string p.1, p.2)
      | t =>
          let run := scalarRun t
          (scalar? run).map fun v => (v, t.drop run.length)

/-! ## Documents -/

structure Building where
  /-- The tables that are finished. -/
  root : Entries
  /-- Where the open table will stand; nowhere, for the entries of the document. -/
  place : Option (List Text × Text)
  /-- Whether the open table is one of a list. -/
  listed : Bool
  current : Entries

namespace Building

def start : Building :=
  ⟨[], none, false, []⟩

def finish (b : Building) : Option Entries :=
  match b.place with
  | none => some b.current
  | some (path, key) =>
      let put (_ : TableKind) (entries : Entries) : Option (Unit × Entries) :=
        match b.listed, Bindings.get? entries key with
        | true, none => some ((), Bindings.insert entries key (.tables [b.current]))
        | true, some (.tables elements) =>
            some ((), Bindings.insert entries key (.tables (elements ++ [b.current])))
        | false, none => some ((), Bindings.insert entries key (.table .header b.current))
        | _, _ => none
      (changeAt false put path .header b.root).map Prod.snd

def openTable (b : Building) (key : Text × List Text) : Option Building := do
  let root ← b.finish
  let (path, last) := splitKey key
  let take (_ : TableKind) (entries : Entries) : Option (Entries × Entries) :=
    match Bindings.get? entries last with
    | none => some ([], entries)
    | some (.table .passed inner) => some (inner, Bindings.erase entries last)
    | some _ => none
  let (current, root) ← changeAt false take path .header root
  some ⟨root, some (path, last), false, current⟩

/-- Opens one more table of a list under a header. -/
def openListed (b : Building) (key : Text × List Text) : Option Building := do
  let root ← b.finish
  let (path, last) := splitKey key
  let check (_ : TableKind) (entries : Entries) : Option (Unit × Entries) :=
    match Bindings.get? entries last with
    | none => some ((), entries)
    | some (.tables _) => some ((), entries)
    | some _ => none
  let ((), root) ← changeAt false check path .header root
  some ⟨root, some (path, last), true, []⟩

def add (b : Building) (key : Text × List Text) (v : Toml) : Option Building := do
  let (path, last) := splitKey key
  let current ← addValue path last v b.current
  some { b with current }

end Building

def takeHeader? (t : Text) : Option ((Text × List Text) × Text) := do
  let (key, rest) ← takeKey? nestingLimit t
  some (key, ← takeChar? ']' rest)

def takeStatement? (b : Building) (t : Text) : Option (Building × Text) :=
  match t with
  | '[' :: '[' :: t => do
      let (key, rest) ← takeHeader? t
      let rest ← takeLineEnd? (← takeChar? ']' rest)
      some (← b.openListed key, rest)
  | '[' :: t => do
      let (key, rest) ← takeHeader? t
      let rest ← takeLineEnd? rest
      some (← b.openTable key, rest)
  | t => do
      let ((key, v), rest) ← takePair? (fun t => takeValue? nestingLimit t) t
      let rest ← takeLineEnd? rest
      some (← b.add key v, rest)

def takeStatements? : (bound : Nat) → Building → Text → Option Entries
  | 0, _, _ => none
  | bound + 1, b, t =>
      match skipTrivia false t with
      | [] => b.finish
      | t => do
          let (b, rest) ← takeStatement? b t
          takeStatements? bound b rest

/-- The character that may mark the start of a document. -/
def byteOrderMark : Char := '\ufeff'

def read? (t : Text) : Option Entries :=
  let t :=
    match t with
    | [] => []
    | c :: rest => if c = byteOrderMark then rest else t
  takeStatements? (t.length + 1) .start t

end Stencil.Toml
