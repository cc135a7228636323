/-!
# Records

Named members in ascending order of their names, each name once.
-/

namespace ScriptCheck.Record

variable {α : Type}

def get? (key : String) : List (String × α) → Option α
  | [] => none
  | (name, member) :: rest => if name = key then some member else get? key rest

/-- A record with the member of a name set. -/
def insert (key : String) (member : α) : List (String × α) → List (String × α)
  | [] => [(key, member)]
  | (name, old) :: rest =>
      if key = name then (key, member) :: rest
      else if key < name then (key, member) :: (name, old) :: rest
      else (name, old) :: insert key member rest

def keys (record : List (String × α)) : List String :=
  record.map Prod.fst

/-- The record of some members in any order; of one name the last counts. -/
def ofList (members : List (String × α)) : List (String × α) :=
  members.foldl (fun record (key, member) => insert key member record) []

/-- Reading the name that was set gives the new member. -/
@[simp] theorem get?_insert_self (key : String) (member : α)
    (record : List (String × α)) : get? key (insert key member record) = some member := by
  induction record with
  | nil => simp [insert, get?]
  | cons head rest ih =>
      obtain ⟨name, old⟩ := head
      by_cases h : key = name
      · simp [insert, get?, h]
      · by_cases hlt : key < name
        · simp [insert, get?, h, hlt]
        · have h' : ¬ name = key := fun he => h he.symm
          simp [insert, get?, h, h', hlt, ih]

theorem get?_insert_of_ne {key other : String} (h : other ≠ key) (member : α)
    (record : List (String × α)) :
    get? other (insert key member record) = get? other record := by
  have hk : ¬ key = other := fun he => h he.symm
  induction record with
  | nil => simp [insert, get?, hk]
  | cons head rest ih =>
      obtain ⟨name, old⟩ := head
      by_cases hn : key = name
      · subst hn
        simp [insert, get?, hk]
      · by_cases hlt : key < name
        · simp [insert, get?, hn, hlt, hk]
        · by_cases ho : name = other
          · subst ho
            simp [insert, get?, hn, hlt]
          · simp [insert, get?, hn, hlt, ho, ih]

/-- What is read under a name is a member of the record. -/
theorem mem_of_get? {key : String} {member : α} {record : List (String × α)}
    (h : get? key record = some member) : (key, member) ∈ record := by
  induction record with
  | nil => cases h
  | cons head rest ih =>
      obtain ⟨name, old⟩ := head
      by_cases hname : name = key
      · rw [get?, if_pos hname] at h
        cases h
        simp [hname]
      · rw [get?, if_neg hname] at h
        exact List.mem_cons_of_mem _ (ih h)

/-- The members of a record with a member set are that one and those it had. -/
theorem eq_or_mem_of_mem_insert {key : String} {member : α} {record : List (String × α)}
    {entry : String × α} (h : entry ∈ insert key member record) :
    entry = (key, member) ∨ entry ∈ record := by
  induction record with
  | nil => exact .inl (List.mem_singleton.mp h)
  | cons head rest ih =>
      obtain ⟨name, old⟩ := head
      rw [insert] at h
      split at h
      · rcases List.mem_cons.mp h with hentry | hentry
        · exact .inl hentry
        · exact .inr (List.mem_cons_of_mem _ hentry)
      · split at h
        · exact List.mem_cons.mp h
        · rcases List.mem_cons.mp h with hentry | hentry
          · exact .inr (hentry ▸ List.mem_cons_self)
          · exact (ih hentry).imp_right (List.mem_cons_of_mem _)

theorem mem_of_mem_ofList {members : List (String × α)} {entry : String × α}
    (h : entry ∈ ofList members) : entry ∈ members := by
  have hall : ∀ record : List (String × α),
      entry ∈ members.foldl (fun record (key, member) => insert key member record) record →
        entry ∈ record ∨ entry ∈ members := by
    clear h
    induction members with
    | nil => exact fun record hentry => .inl hentry
    | cons head rest ih =>
        intro record hentry
        rcases ih _ hentry with hinsert | hrest
        · rcases eq_or_mem_of_mem_insert hinsert with rfl | hold
          · exact .inr List.mem_cons_self
          · exact .inl hold
        · exact .inr (List.mem_cons_of_mem _ hrest)
  exact (hall [] h).resolve_left List.not_mem_nil

end ScriptCheck.Record
