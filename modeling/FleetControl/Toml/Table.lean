import FleetControl.Config.Setting

/-!
# Tables of a settings file

A table is opened by a header, or comes about because a longer header or a
dotted key leads through it. A header may open each table once, and also one
that longer headers have led through; a dotted key may only lead through tables
that dotted keys have made. A header in double brackets adds a row to a list of
tables, and what leads through the list leads through its last row. Below the
root a table may stand for one of its members.
-/
namespace FleetControl.Toml

/-- How a table came about. -/
inductive Origin where
  | header
  /-- A longer header leads through it. -/
  | passage
  /-- A dotted key leads through it. -/
  | dotted
  deriving DecidableEq, Repr

/-- What stands under a name. -/
inductive Node where
  | value (v : Setting)
  | table (origin : Origin) (members : List (String × Node))
  | rows (rows : List (List (String × Node)))

/-- The members of a table by name. -/
abbrev Table := List (String × Node)

namespace Table

/-- Change the table at the end of a path. Tables that are missing on the way are
made as the key or header that leads through them makes them. -/
def changeAt (dotted : Bool) (change : Origin → Table → Option Table) :
    (path : List String) → Origin → Table → Option Table
  | [], origin, t => change origin t
  | name :: path, _, t =>
      match t.lookup name with
      | none =>
          let origin := if dotted then .dotted else .passage
          (changeAt dotted change path origin []).map fun inner =>
            Setting.putMember name (.table origin inner) t
      | some (.value _) => none
      | some (.table origin inner) =>
          if dotted && origin = .header then none
          else (changeAt dotted change path origin inner).map fun inner =>
            Setting.putMember name (.table origin inner) t
      | some (.rows rows) =>
          (changeAt dotted change path .header (rows.getLast?.getD [])).map fun last =>
            Setting.putMember name (.rows (rows.dropLast ++ [last])) t

/-- Give a name its value, once. A dotted key ends in a table of dotted keys, a
simple one does not. -/
def define (path : List String) (name : String) (v : Setting) (origin : Origin) (t : Table) :
    Option Table :=
  let give (origin : Origin) (t : Table) : Option Table :=
    if decide (origin = .dotted) == path.isEmpty then none
    else if (t.lookup name).isSome then none
    else some (t ++ [(name, .value v)])
  changeAt true give path origin t

/-- Open a table by its header. -/
def openTable (path : List String) (name : String) (root : Table) : Option Table :=
  let enter (_ : Origin) (t : Table) : Option Table :=
    match t.lookup name with
    | none => some (t ++ [(name, .table .header [])])
    | some (.table .passage inner) => some (Setting.putMember name (.table .header inner) t)
    | some _ => none
  changeAt false enter path .header root

/-- Add a row to a list of tables. -/
def addRow (path : List String) (name : String) (root : Table) : Option Table :=
  let add (_ : Origin) (t : Table) : Option Table :=
    match t.lookup name with
    | none => some (t ++ [(name, .rows [[]])])
    | some (.rows rows) => some (Setting.putMember name (.rows (rows ++ [[]])) t)
    | some _ => none
  changeAt false add path .header root

/-- Give a name its value in the table that was opened last. -/
def defineIn (opened path : List String) (name : String) (v : Setting) (root : Table) :
    Option Table :=
  changeAt false (define path name v) opened .header root

end Table

/-! ## What tables say -/

/-- The name of a member that stands for its whole table. -/
def standIn : String := "___figment_value_value"

/-- The name of a member that marks where a table comes from. No settings file
can hold such a mark. -/
def mark : String := "___figment_value_id"

/-- What a table below the root says, from what its members say. -/
def ofMembers? (members : List (String × Setting)) : Option Setting :=
  if (members.lookup mark).isSome then none
  else some ((members.lookup standIn).getD (.group members))

theorem ofMembers?_of_plain {members : List (String × Setting)}
    (hm : members.lookup mark = none) (hs : members.lookup standIn = none) :
    ofMembers? members = some (.group members) := by
  simp [ofMembers?, hm, hs]

mutual

/-- What a node says, if it says anything. -/
def Node.toSetting? : Node → Option Setting
  | .value v => some v
  | .table _ members => do ofMembers? (← membersToSettings? members)
  | .rows rows => (rowsToSettings? rows).map .list

def membersToSettings? : Table → Option (List (String × Setting))
  | [] => some []
  | (name, n) :: ms => do
      let v ← n.toSetting?
      let vs ← membersToSettings? ms
      some ((name, v) :: vs)

def rowsToSettings? : List Table → Option (List Setting)
  | [] => some []
  | row :: rows => do
      let v ← ofMembers? (← membersToSettings? row)
      let vs ← rowsToSettings? rows
      some (v :: vs)

end

end FleetControl.Toml
