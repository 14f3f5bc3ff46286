import EraseMe.Library.Json

/-!
# Paths into JSON values

`path` follows the names of nested objects.
-/

namespace Json

/-- The member of an object. -/
def member (key : String) : Json → Option Json
  | .object fields => Map.get fields key
  | _ => none

/-- The value at the end of a path of member names. -/
def path : List String → Json → Option Json
  | [], v => some v
  | key :: keys, v => (v.member key).bind (path keys)

@[simp] theorem path_nil (v : Json) : path [] v = some v := rfl

theorem path_cons (key : String) (keys : List String) (v : Json) :
    path (key :: keys) v = (v.member key).bind (path keys) := rfl

@[simp] theorem member_object (key : String) (fields : Map) :
    member key (.object fields) = Map.get fields key := rfl

end Json
