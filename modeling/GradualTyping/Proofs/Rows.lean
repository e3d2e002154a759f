/-
# The fields of an object

An object is made of a list of fields.  The list is reversed and sorted by name, of each
name the first field is kept, and a field is found by halving the list.  The sort keeps the
order of the fields with one name (`filter_mergeSort`), and in fields in order the search
finds what a look at each of them would (`searchName_eq_find?`).  So the last field of a name
counts (`find?_sortProperties`), and the object is found again for every list with the same
last fields, because fields in order are known by their elements (`NamesIncrease.ext`).
-/

import GradualTyping.Proofs.Occurrences

namespace GradualTyping

open TypeTable

namespace TypeTable.Reachable

variable {t : TypeTable}

/-- **Of the fields with one name the last counts.**  It is the one that the made object has,
and lists with the same last fields make the same object, now and in every later table. -/
theorem objectOf_last_fields (h : t.Reachable) (ps : List Property) (index : Option TypeId) :
    (∃ o, (objectOf ps index t).2.resolve (objectOf ps index t).1 = .object o ∧ o.index = index ∧
      ∀ name, o.property? name = (ps.filter (·.name == name)).getLast?) ∧
    ∀ qs : List Property, (∀ name,
        (qs.filter (·.name == name)).getLast? = (ps.filter (·.name == name)).getLast?) →
      objectOf qs index t = objectOf ps index t ∧
      ∀ t' : TypeTable, t'.Reachable → (objectOf ps index t).2.Grows t' →
        objectOf qs index t' = ((objectOf ps index t).1, t') := by
  have made : (objectOf ps index t).2.get? (objectOf ps index t).1 =
      some (.object ⟨sortProperties ps, index⟩) :=
    h.sound.indexed.get?_insert
  refine ⟨⟨_, resolve_of_get? made, rfl, fun name => ?_⟩, fun qs same => ?_⟩
  · exact (searchName_eq_find? namesIncrease_sortProperties).trans (find?_sortProperties ps)
  have sorted : sortProperties qs = sortProperties ps :=
    namesIncrease_sortProperties.ext namesIncrease_sortProperties fun p => by
      rw [mem_sortProperties_iff, mem_sortProperties_iff, same]
  rw [objectOf, sorted]
  exact ⟨rfl, fun t' h' g => insert_of_lookup (h'.sound.lookup_iff.2 (g.get? made))⟩

end TypeTable.Reachable

/-- A field that is named again further down, and the list without its first declaration. -/
theorem objectOf_last_fields_repeated :
    let field (name : String) (type : TypeId) : Property := { name := name, type := type }
    let ps := [field "a" .string, field "b" .number, field "a" .number]
    (∃ o, (objectOf ps none (withLimits {})).2.resolve (objectOf ps none (withLimits {})).1 =
        .object o ∧ o.property? "a" = some (field "a" .number) ∧ o.property? "c" = none) ∧
      objectOf ps.tail none (withLimits {}) = objectOf ps none (withLimits {}) := by
  intro field ps
  obtain ⟨⟨o, ho, -, found⟩, again⟩ := (Reachable.start {}).objectOf_last_fields ps none
  refine ⟨⟨o, ho, found "a", found "c"⟩, (again ps.tail fun name => ?_).1⟩
  by_cases h : "a" = name
  · subst h
    rfl
  · simp [ps, field, h]

end GradualTyping
