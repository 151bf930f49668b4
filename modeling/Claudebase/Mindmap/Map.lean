import Mathlib.Data.List.Basic

/-!
# A whole mind map

`src/mindmap.rs:138–210`. What reading a map gives and what an archive carries: its summary,
its nodes in tree order, its links and its chains, with the entries each of them points at.
-/

namespace Claudebase.Mindmap

/-- `MapSummary`, `src/mindmap.rs:139`. -/
structure MapSummary where
  id : Int
  title : String
  ownerNick : String
  ownerHost : Option String
  state : String
  shared : Bool
  layout : String
  direction : String
  nodeCount : Int
  openNodes : Int
  createdAt : Int
  updatedAt : Int
  deriving DecidableEq, Repr

/-- `Node`, `src/mindmap.rs:158`. -/
structure Node where
  id : Int
  parent : Option Int
  kind : String
  text : String
  state : String
  refs : List Int
  author : Option String
  deriving DecidableEq, Repr

/-- `Edge`, `src/mindmap.rs:170`. -/
structure Edge where
  id : Int
  src : Int
  dst : Int
  label : String
  refs : List Int
  deriving DecidableEq, Repr

/-- `Chain`, `src/mindmap.rs:179`. -/
structure Chain where
  id : Int
  name : String
  entries : List Int
  deriving DecidableEq, Repr

/-- `Map`, `src/mindmap.rs:187`. -/
structure Map where
  summary : MapSummary
  root : Int
  nodes : List Node
  edges : List Edge
  chains : List Chain
  deriving DecidableEq, Repr

end Claudebase.Mindmap
