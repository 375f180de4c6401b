import Mathlib.Data.List.Nodup
import Stevedore.Proxy

/-!
Which proxy variables a build or a container gets.

Each variable is passed on under two names, its name in lower case and that in upper case, or not at
all. What is passed on is found out from these two names alone (`passesOn`): each takes its own
value, or else the other's, and the list of exceptions takes the extra entries besides. A variable
that is set in some other case is captured, since capturing does not look at the case. But then it
is passed on under neither name, and all that it does is that there are proxy variables at all.

So nothing is lost exactly if all names are in one case (`PassesOn.present`).
-/

namespace Stevedore

/-- Only entries with the key are asked for. -/
theorem lookup_filter {κ : Type u} {α : Type v} [DecidableEq κ] {p : κ → Bool} {k : κ}
    (h : p k = true) (l : List (κ × α)) : (l.filter fun e => p e.1).lookup k = l.lookup k := by
  induction l with
  | nil => rfl
  | cons e l ih =>
    obtain ⟨k₀, v₀⟩ := e
    by_cases hk : k = k₀
    · simp [← hk, h]
    · have hb : (k == k₀) = false := by simpa using hk
      rw [List.lookup_cons, hb, List.filter_cons]
      split
      · simp only [List.lookup_cons, hb, ih]
      · exact ih

/-! ## The names -/

theorem toLower_of_mem_proxyNames {name : String} (h : name ∈ proxyNames) :
    name.toLower = name ∧ name.toUpper.toLower = name := by
  revert name
  decide +kernel

/-- All names under which something may be passed on. -/
def passedNames : List String := proxyNames.flatMap fun name => [name, name.toUpper]

theorem nodup_passedNames : passedNames.Nodup := by decide +kernel

theorem ne_toUpper_of_mem_proxyNames :
    ∀ name ∈ proxyNames, ∀ other ∈ proxyNames, name ≠ other.toUpper := by
  decide +kernel

theorem eq_of_toUpper_eq :
    ∀ name ∈ proxyNames, ∀ other ∈ proxyNames, name.toUpper = other.toUpper → name = other := by
  decide +kernel

namespace ProxyVariables

variable {host : List (String × String)} {extra : List String} {p : ProxyVariables}
variable {name key value : String}

/-! ## What is captured -/

/-- What a variable was set to last under this name, with its case. -/
def lastValue? (host : List (String × String)) (name : String) : Option String :=
  host.reverse.lookup name

theorem get?_host (h : name.toLower ∈ proxyNames) :
    (ofVariables host).host.get? name = lastValue? host name := by
  rw [ofVariables, SortedMap.get?_ofList, ← List.filter_reverse]
  exact lookup_filter (p := fun name => name.toLower ∈ proxyNames) (by simpa using h) host.reverse

theorem isEmpty_eq_false_iff :
    (ofVariables host).isEmpty = false ↔ ∃ v ∈ host, v.1.toLower ∈ proxyNames := by
  rw [isEmpty, ofVariables, SortedMap.isEmpty_ofList, List.isEmpty_eq_false_iff]
  simp

/-- A variable that is set in lower or in upper case is captured. -/
theorem isEmpty_of_isSome (h : name.toLower ∈ proxyNames) (hset : (lastValue? host name).isSome) :
    (ofVariables host).isEmpty = false := by
  obtain ⟨value, hvalue⟩ := Option.isSome_iff_exists.1 hset
  obtain ⟨before, after, hhost, -⟩ := List.lookup_eq_some_iff.1 hvalue
  have hmem : (name, value) ∈ host := List.mem_reverse.1 (by simp [hhost])
  exact isEmpty_eq_false_iff.2 ⟨(name, value), hmem, h⟩

/-! ## What is passed on -/

/-- A value with what is put after it. -/
def completed (extra : List String) (name value : String) : String :=
  if name = "no_proxy" then withEntries value extra else value

/-- The values that a variable is passed on with in lower and in upper case. -/
def passedValues? (p : ProxyVariables) (extra : List String) (name : String) :
    Option (String × String) :=
  if p.isEmpty then none
  else
    (p.values? extra name).map fun values =>
      (completed extra name values.1, completed extra name values.2)

/-- What is passed on of one variable. -/
def passedEntries (p : ProxyVariables) (extra : List String) (name : String) :
    List (String × String) :=
  (p.passedValues? extra name).toList.flatMap fun values =>
    [(name, values.1), (name.toUpper, values.2)]

theorem passedOn_eq (p : ProxyVariables) (extra : List String) :
    p.passedOn extra = .ofList (proxyNames.flatMap (p.passedEntries extra)) := by
  unfold passedOn
  split
  · next h =>
    have hnone : proxyNames.flatMap (p.passedEntries extra) = [] := by
      simp [passedEntries, passedValues?, h]
    rw [hnone]
    rfl
  · next h =>
    congr 2
    funext name
    rw [passedEntries, passedValues?, if_neg h]
    cases hvalues : p.values? extra name with
    | none => rfl
    | some values =>
      simp only [Option.map_some, Option.toList_some, List.flatMap_singleton, completed]
      split <;> rfl

theorem nodup_keys_passedEntries (p : ProxyVariables) (extra : List String) :
    ((proxyNames.flatMap (p.passedEntries extra)).map (·.1)).Nodup := by
  refine nodup_passedNames.sublist ?_
  unfold passedNames
  induction proxyNames with
  | nil => exact .slnil
  | cons name names ih =>
    rw [List.flatMap_cons, List.flatMap_cons, List.map_append]
    refine List.Sublist.append ?_ ih
    unfold passedEntries
    cases p.passedValues? extra name <;> simp

theorem get?_passedOn_eq_some_iff : (p.passedOn extra).get? key = some value ↔
    ∃ name ∈ proxyNames, ∃ values, p.passedValues? extra name = some values ∧
      (key = name ∧ value = values.1 ∨ key = name.toUpper ∧ value = values.2) := by
  rw [passedOn_eq, SortedMap.get?_ofList_eq_some_iff (nodup_keys_passedEntries p extra)]
  simp [passedEntries]

theorem get?_passedOn (h : name ∈ proxyNames) :
    (p.passedOn extra).get? name = (p.passedValues? extra name).map (·.1) := by
  ext value
  rw [get?_passedOn_eq_some_iff, Option.map_eq_some_iff]
  constructor
  · rintro ⟨other, ho, values, hvalues, ⟨rfl, rfl⟩ | ⟨hupper, -⟩⟩
    · exact ⟨values, hvalues, rfl⟩
    · exact absurd hupper (ne_toUpper_of_mem_proxyNames name h other ho)
  · rintro ⟨values, hvalues, rfl⟩
    exact ⟨name, h, values, hvalues, .inl ⟨rfl, rfl⟩⟩

theorem get?_passedOn_toUpper (h : name ∈ proxyNames) :
    (p.passedOn extra).get? name.toUpper = (p.passedValues? extra name).map (·.2) := by
  ext value
  rw [get?_passedOn_eq_some_iff, Option.map_eq_some_iff]
  constructor
  · rintro ⟨other, ho, values, hvalues, ⟨hlower, -⟩ | ⟨hupper, rfl⟩⟩
    · exact absurd hlower.symm (ne_toUpper_of_mem_proxyNames other ho name h)
    · exact ⟨values, eq_of_toUpper_eq name h other ho hupper ▸ hvalues, rfl⟩
  · rintro ⟨values, hvalues, rfl⟩
    exact ⟨name, h, values, hvalues, .inr ⟨rfl, rfl⟩⟩

/-! ## In terms of the host -/

/-- The value for one name: what it was set to, or else what the other was set to. -/
def valueFor? (host : List (String × String)) (own other : String) : Option String :=
  (lastValue? host own).or (lastValue? host other)

/-- The list of exceptions is passed on as soon as it has entries to hold. -/
def emptyExceptions? (extra : List String) (name : String) : Option String :=
  if name = "no_proxy" ∧ extra ≠ [] then some "" else none

theorem values?_ofVariables (host : List (String × String)) (extra : List String)
    (h : name ∈ proxyNames) :
    ((ofVariables host).values? extra name).map (·.1) =
        (valueFor? host name name.toUpper).or (emptyExceptions? extra name) ∧
      ((ofVariables host).values? extra name).map (·.2) =
        (valueFor? host name.toUpper name).or (emptyExceptions? extra name) := by
  obtain ⟨hlower, hupper⟩ := toLower_of_mem_proxyNames h
  unfold values? valueFor? emptyExceptions?
  rw [get?_host (hlower.symm ▸ h), get?_host (hupper.symm ▸ h)]
  cases lastValue? host name with
  | some lower => cases lastValue? host name.toUpper <;> exact ⟨rfl, rfl⟩
  | none =>
    cases lastValue? host name.toUpper with
    | some upper => exact ⟨rfl, rfl⟩
    | none => simp [apply_ite]

/-- A name in one case, and the same in the other. -/
def spellings (name : String) : List (String × String) :=
  [(name, name.toUpper), (name.toUpper, name)]

theorem get?_passedOn_of_spelling {spelling : String × String} (h : name ∈ proxyNames)
    (hspelling : spelling ∈ spellings name) :
    ((ofVariables host).passedOn extra).get? spelling.1 =
      if (ofVariables host).isEmpty then none
      else ((valueFor? host spelling.1 spelling.2).or (emptyExceptions? extra name)).map
        (completed extra name) := by
  obtain ⟨hlower, hupper⟩ := values?_ofVariables host extra h
  rcases List.mem_pair.1 hspelling with rfl | rfl
  · rw [get?_passedOn h, passedValues?, ← hlower]
    split
    · rfl
    · rw [Option.map_map, Option.map_map]
      rfl
  · rw [get?_passedOn_toUpper h, passedValues?, ← hupper]
    split
    · rfl
    · rw [Option.map_map, Option.map_map]
      rfl

theorem toLower_of_spelling {spelling : String × String} (h : name ∈ proxyNames)
    (hspelling : spelling ∈ spellings name) :
    spelling.1.toLower ∈ proxyNames ∧ spelling.2.toLower ∈ proxyNames := by
  obtain ⟨hlower, hupper⟩ := toLower_of_mem_proxyNames h
  rcases List.mem_pair.1 hspelling with rfl | rfl
  · exact ⟨hlower.symm ▸ h, hupper.symm ▸ h⟩
  · exact ⟨hupper.symm ▸ h, hlower.symm ▸ h⟩

/-- Where nothing is captured, nothing is set. -/
theorem lastValue?_eq_none (h : name.toLower ∈ proxyNames)
    (hempty : (ofVariables host).isEmpty = true) : lastValue? host name = none := by
  rw [← Option.not_isSome_iff_eq_none]
  intro hset
  exact Bool.false_ne_true ((isEmpty_of_isSome h hset).symm.trans hempty)

/-! ## Lists of hosts -/

/-- The hosts in a list, without white space around them and empty places between them. -/
def hostsIn (text : String) : List String :=
  ((Text.splitText ',' text).map Text.trim).filter (· ≠ "")

/-- How a list of hosts with `extra` after them is written. -/
structure Lists (value : String) (hosts extra : List String) : Prop where
  joined : value = ",".intercalate (hosts ++ extra)
  /-- It is read again, with the commas inside of the extra entries as well. -/
  read : hosts ++ extra ≠ [] →
    Text.splitText ',' value = hosts ++ extra.flatMap (Text.splitText ',')

theorem comma_not_mem_hostsIn {text entry : String} (h : entry ∈ hostsIn text) :
    ',' ∉ entry.toList := by
  obtain ⟨piece, hpiece, rfl⟩ := List.mem_map.1 (List.mem_of_mem_filter h)
  intro hcomma
  exact Text.not_mem_of_mem_splitText hpiece (Text.mem_of_mem_trim hcomma)

theorem lists_withEntries (text : String) (extra : List String) :
    Lists (withEntries text extra) (hostsIn text) extra where
  joined := rfl
  read hne := by
    have hhosts : (hostsIn text).flatMap (Text.splitText ',') = hostsIn text :=
      Text.flatMap_splitText fun _ => comma_not_mem_hostsIn
    calc Text.splitText ',' (withEntries text extra)
        = (hostsIn text ++ extra).flatMap (Text.splitText ',') := Text.splitText_intercalate hne
      _ = hostsIn text ++ extra.flatMap (Text.splitText ',') := by rw [List.flatMap_append, hhosts]

/-! ## The whole -/

/-- What is passed on of the variables of the host. -/
structure PassesOn (host : List (String × String)) (extra : List String)
    (passed : NameMap String) : Prop where
  /-- Nothing else is passed on. -/
  names : ∀ key, passed.contains key = true → key ∈ passedNames
  both : ∀ name ∈ proxyNames, passed.contains name.toUpper = passed.contains name
  /-- Only what is set in lower or in upper case is there, and the exceptions for the extra entries,
  which are there as soon as something is captured. -/
  present : ∀ name ∈ proxyNames, passed.contains name = true ↔
    (lastValue? host name).isSome ∨ (lastValue? host name.toUpper).isSome ∨
      name = "no_proxy" ∧ extra ≠ [] ∧ ∃ v ∈ host, v.1.toLower ∈ proxyNames
  /-- A name keeps its own value, and takes that of the other if it has none. -/
  values : ∀ name ∈ proxyNames, name ≠ "no_proxy" → ∀ spelling ∈ spellings name,
    passed.get? spelling.1 = valueFor? host spelling.1 spelling.2
  exceptions : ∀ spelling ∈ spellings "no_proxy", ∀ value, passed.get? spelling.1 = some value →
    Lists value (hostsIn ((valueFor? host spelling.1 spelling.2).getD "")) extra

/-- **What is passed on is found out from the names in lower and in upper case.** -/
theorem passesOn (host : List (String × String)) (extra : List String) :
    PassesOn host extra ((ofVariables host).passedOn extra) where
  names key hkey := by
    obtain ⟨value, hvalue⟩ := Option.isSome_iff_exists.1 hkey
    obtain ⟨name, hname, values, -, ⟨rfl, -⟩ | ⟨rfl, -⟩⟩ := get?_passedOn_eq_some_iff.1 hvalue
    · exact List.mem_flatMap.2 ⟨key, hname, by simp⟩
    · exact List.mem_flatMap.2 ⟨name, hname, by simp⟩
  both name hname := by
    rw [SortedMap.contains, SortedMap.contains, get?_passedOn hname, get?_passedOn_toUpper hname,
      Option.isSome_map, Option.isSome_map]
  present name hname := by
    have hspelling : (name, name.toUpper) ∈ spellings name := by simp [spellings]
    obtain ⟨hlower, hupper⟩ := toLower_of_spelling hname hspelling
    rw [SortedMap.contains, get?_passedOn_of_spelling hname hspelling, ← isEmpty_eq_false_iff]
    cases hempty : (ofVariables host).isEmpty with
    | true => simp [lastValue?_eq_none hlower hempty, lastValue?_eq_none hupper hempty]
    | false => simp [valueFor?, emptyExceptions?, or_assoc]
  values name hname hne spelling hspelling := by
    obtain ⟨hown, hother⟩ := toLower_of_spelling hname hspelling
    have hcompleted : completed extra name = id := by
      funext value
      exact if_neg hne
    have hdefault : emptyExceptions? extra name = none := if_neg fun h => hne h.1
    rw [get?_passedOn_of_spelling hname hspelling, hcompleted, hdefault, Option.or_none,
      Option.map_id_fun, id]
    split
    · next hempty =>
      rw [valueFor?, lastValue?_eq_none hown hempty, lastValue?_eq_none hother hempty,
        Option.none_or]
    · rfl
  exceptions spelling hspelling value hvalue := by
    rw [get?_passedOn_of_spelling (by decide) hspelling] at hvalue
    split at hvalue
    · cases hvalue
    · obtain ⟨text, htext, rfl⟩ := Option.map_eq_some_iff.1 hvalue
      have hdefault : text = (valueFor? host spelling.1 spelling.2).getD "" := by
        cases hset : valueFor? host spelling.1 spelling.2 with
        | some set =>
          rw [hset, Option.some_or] at htext
          exact (Option.some.inj htext).symm
        | none =>
          rw [hset, Option.none_or, emptyExceptions?] at htext
          split at htext
          · exact (Option.some.inj htext).symm
          · cases htext
      rw [← hdefault]
      exact lists_withEntries text extra

end ProxyVariables

/-! ## A gate with a sign in mixed case -/

namespace Gate

/-- The proxy is set in a case that is neither the lower nor the upper one. -/
def host : List (String × String) := [("Http_Proxy", "http://gate:3128")]

/-- The variable is captured, and is passed on under neither name. -/
theorem mixed_case_is_lost :
    (ProxyVariables.ofVariables host).host.get? "Http_Proxy" = some "http://gate:3128" ∧
      (ProxyVariables.ofVariables host).passedOn [] = ∅ := by
  decide +kernel

end Gate

end Stevedore
