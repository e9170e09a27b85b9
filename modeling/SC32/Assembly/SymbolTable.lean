/-!
Symbol tables: each label with the line that defines it and that line's address, in the order of
definition. Defining a label again keeps its place.
-/
namespace SC32.Assembly

structure Definition where
  line : Nat
  address : Nat
  deriving DecidableEq, Repr

/-- No label stands in a table twice. -/
structure SymbolTable where
  entries : List (String × Definition)
  nodup : (entries.map Prod.fst).Nodup
  deriving DecidableEq, Repr

namespace SymbolTable

def empty : SymbolTable := ⟨[], List.nodup_nil⟩

def size (t : SymbolTable) : Nat := t.entries.length

def isEmpty (t : SymbolTable) : Bool := t.entries.isEmpty

def find? (t : SymbolTable) (l : String) : Option Definition := t.entries.lookup l

def address? (t : SymbolTable) (l : String) : Option Nat := (t.find? l).map Definition.address

/-- The entries with `l` bound to `d`. -/
def bind (l : String) (d : Definition) : List (String × Definition) → List (String × Definition)
  | [] => [(l, d)]
  | e :: es => if e.1 = l then (l, d) :: es else e :: bind l d es

theorem mem_bind {l k : String} {d : Definition} {es : List (String × Definition)}
    (h : k ∈ (bind l d es).map Prod.fst) : k = l ∨ k ∈ es.map Prod.fst := by
  induction es with
  | nil => simpa [bind] using h
  | cons e es ih =>
    unfold bind at h
    split at h
    · rcases List.mem_cons.1 h with h | h
      · exact .inl h
      · exact .inr (List.mem_cons_of_mem _ h)
    · rcases List.mem_cons.1 h with h | h
      · exact .inr (h ▸ List.mem_cons_self)
      · exact (ih h).imp_right (List.mem_cons_of_mem _)

theorem nodup_bind (l : String) (d : Definition) {es : List (String × Definition)}
    (h : (es.map Prod.fst).Nodup) : ((bind l d es).map Prod.fst).Nodup := by
  induction es with
  | nil => simp [bind]
  | cons e es ih =>
    rw [List.map_cons, List.nodup_cons] at h
    unfold bind
    split
    · simp_all
    · rw [List.map_cons, List.nodup_cons]
      refine ⟨fun hm => ?_, ih h.2⟩
      rcases mem_bind hm with he | he
      · contradiction
      · exact h.1 he

def insert (t : SymbolTable) (l : String) (d : Definition) : SymbolTable :=
  ⟨bind l d t.entries, nodup_bind l d t.nodup⟩

@[simp] theorem find?_empty (l : String) : empty.find? l = none := rfl

theorem lookup_bind (l k : String) (d : Definition) (es : List (String × Definition)) :
    (bind l d es).lookup k = if k = l then some d else es.lookup k := by
  induction es with
  | nil => grind [bind]
  | cons e es ih =>
    unfold bind
    split <;> grind

theorem find?_insert (t : SymbolTable) (l k : String) (d : Definition) :
    (t.insert l d).find? k = if k = l then some d else t.find? k :=
  lookup_bind l k d t.entries

end SymbolTable
end SC32.Assembly
