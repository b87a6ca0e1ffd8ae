import Mathlib.Data.List.Basic
import Mathlib.Tactic.Common

universe u

inductive Json (S : Type u) : Type u
  | null
  | bool (b : Bool)
  | num (text : String)
  | str (s : S)
  | arr (items : List (Json S))
  | obj (members : List (S × Json S))
