import Mathlib.Data.List.Forall2
import Stevedore.Docker.Arguments
import Stevedore.Text.Pieces

/-!
What the arguments with which a container is created tell of the request.

The arguments are options with values, and then the image and the command. Each option is given once
for each of its values, and no other option and no image is spelled like it. So the values of all
options can be read off (`optionList_inj`), whatever they are: a value stands right behind its
option, even if it looks like an option itself.

But some values have parts, with a separator in between that may stand in the parts as well: a
variable and its value, or what is mounted, where, and how. Of these no more can be read off than
the pieces between the separators (`createArguments_eq_iff_resembles`). Where nothing but the last
part has separators in it, the parts are read off, and requests with the same arguments are the same
(`CreateRequest.Resembles.eq`).
-/

namespace Stevedore

open Docker

/-! ## Options with values -/

section Options

variable {option : String} {values values' rest rest' : List String}
  {options options' : List (String × List String)}

/-- Options with their values, and what comes after them. -/
def optionList (options : List (String × List String)) (rest : List String) : List String :=
  options.foldr (fun o after => repeated o.1 o.2 ++ after) rest

@[simp] theorem optionList_nil (rest : List String) : optionList [] rest = rest := rfl

@[simp] theorem optionList_cons (o : String × List String)
    (options : List (String × List String)) (rest : List String) :
    optionList (o :: options) rest = repeated o.1 o.2 ++ optionList options rest := rfl

/-- The values of an option and where they end, if something else comes after them. -/
theorem repeated_append_inj (h : rest.head? ≠ some option) (h' : rest'.head? ≠ some option) :
    repeated option values ++ rest = repeated option values' ++ rest' ↔
      values = values' ∧ rest = rest' := by
  constructor
  · intro heq
    induction values generalizing values' with
    | nil =>
      cases values' with
      | nil => exact ⟨rfl, heq⟩
      | cons v' values' =>
        have hrest : rest = repeated option (v' :: values') ++ rest' := heq
        exact absurd (by simp [hrest, repeated]) h
    | cons v values ih =>
      cases values' with
      | nil =>
        have hrest : repeated option (v :: values) ++ rest = rest' := heq
        exact absurd (by simp [← hrest, repeated]) h'
      | cons v' values' =>
        have hcons : option :: v :: (repeated option values ++ rest) =
            option :: v' :: (repeated option values' ++ rest') := heq
        obtain ⟨hv, hlater⟩ := List.cons.inj (List.cons.inj hcons).2
        obtain ⟨hvalues, hrest⟩ := ih hlater
        exact ⟨by rw [hv, hvalues], hrest⟩
  · rintro ⟨rfl, rfl⟩
    rfl

/-- The first argument is an option or the first of the rest. -/
theorem head?_optionList {first : String} (h : (optionList options rest).head? = some first) :
    first ∈ options.map (·.1) ∨ rest.head? = some first := by
  induction options with
  | nil => exact .inr h
  | cons o options ih =>
    rw [List.map_cons, List.mem_cons]
    obtain ⟨name, values⟩ := o
    cases values with
    | nil => exact (ih h).imp_left .inr
    | cons v values => exact .inl (.inl (Option.some.inj h).symm)

/-- **The values of different options can be read off**, if none of the options comes after them. -/
theorem optionList_inj (hnames : options.map (·.1) = options'.map (·.1))
    (hnodup : (options.map (·.1)).Nodup)
    (hrest : ∀ first, rest.head? = some first → first ∉ options.map (·.1))
    (hrest' : ∀ first, rest'.head? = some first → first ∉ options.map (·.1)) :
    optionList options rest = optionList options' rest' ↔ options = options' ∧ rest = rest' := by
  induction options generalizing options' with
  | nil =>
    obtain rfl := List.map_eq_nil_iff.1 hnames.symm
    simp
  | cons o options ih =>
    cases options' with
    | nil => cases hnames
    | cons o' options' =>
      obtain ⟨name, values⟩ := o
      obtain ⟨name', values'⟩ := o'
      obtain ⟨rfl, htail⟩ := List.cons.inj hnames
      obtain ⟨hnot, hlater⟩ := List.nodup_cons.1 hnodup
      -- After the values comes another option, or the rest, and neither is this option.
      have hhead : (optionList options rest).head? ≠ some name := fun h =>
        (head?_optionList h).elim hnot fun h => hrest name h (by simp)
      have hhead' : (optionList options' rest').head? ≠ some name := fun h =>
        (head?_optionList h).elim (htail ▸ hnot) fun h => hrest' name h (by simp)
      rw [optionList_cons, optionList_cons, repeated_append_inj hhead hhead',
        ih htail hlater (fun first h hmem => hrest first h (List.mem_cons_of_mem _ hmem))
          fun first h hmem => hrest' first h (List.mem_cons_of_mem _ hmem)]
      simp [and_assoc]

end Options

/-! ## Values with parts -/

section Parts

variable {α : Type} {sep : Char} {parts parts' : List String} {part part' : String}

/-- Whether parts with separators between them are the same text. -/
def SamePieces (sep : Char) (parts parts' : List String) : Prop :=
  parts.flatMap (Text.splitText sep) = parts'.flatMap (Text.splitText sep)

theorem intercalate_eq_iff (h : parts ≠ []) (h' : parts' ≠ []) :
    (String.singleton sep).intercalate parts = (String.singleton sep).intercalate parts' ↔
      SamePieces sep parts parts' := by
  rw [← Text.splitText_inj sep, Text.splitText_intercalate h,
    Text.splitText_intercalate h', SamePieces]

/-- A part without separators is read off. -/
theorem SamePieces.cons_inj (hpart : sep ∉ part.toList) (hpart' : sep ∉ part'.toList)
    (h : SamePieces sep (part :: parts) (part' :: parts')) :
    part = part' ∧ SamePieces sep parts parts' := by
  rw [SamePieces, List.flatMap_cons, List.flatMap_cons, Text.splitText_of_not_mem hpart,
    Text.splitText_of_not_mem hpart'] at h
  exact List.cons.inj h

theorem SamePieces.singleton_inj (h : SamePieces sep [part] [part']) : part = part' := by
  rw [SamePieces, List.flatMap_singleton, List.flatMap_singleton] at h
  exact (Text.splitText_inj sep).1 h

/-- A last part may be missing. -/
theorem SamePieces.toList_inj {last last' : Option String}
    (h : SamePieces sep last.toList last'.toList) : last = last' := by
  cases last with
  | none =>
    cases last' with
    | none => rfl
    | some part' =>
      rw [SamePieces, Option.toList_some, List.flatMap_singleton] at h
      exact absurd h.symm (Text.splitText_ne_nil sep part')
  | some part =>
    cases last' with
    | none =>
      rw [SamePieces, Option.toList_some, List.flatMap_singleton] at h
      exact absurd h (Text.splitText_ne_nil sep part)
    | some part' => rw [h.singleton_inj]

/-- Lists that are written element by element. -/
theorem map_eq_map_iff_forall₂ {f : α → String} {l l' : List α} :
    l.map f = l'.map f ↔ List.Forall₂ (fun a b => f a = f b) l l' := by
  rw [← List.forall₂_eq_eq_eq, List.forall₂_map_left_iff, List.forall₂_map_right_iff]

theorem eq_of_forall₂ {R : α → α → Prop} {l l' : List α} (h : List.Forall₂ R l l')
    (heq : ∀ a ∈ l, ∀ b ∈ l', R a b → a = b) : l = l' := by
  induction h with
  | nil => rfl
  | cons hab _ ih =>
    rw [heq _ (by simp) _ (by simp) hab]
    refine congrArg _ (ih fun a ha b hb => ?_)
    exact heq a (List.mem_cons_of_mem _ ha) b (List.mem_cons_of_mem _ hb)

theorem toList_eq_toList_iff {o o' : Option α} : o.toList = o'.toList ↔ o = o' := by
  cases o <;> cases o' <;> simp

end Parts

/-- What is mounted, as it is written. -/
def MountSource.text : MountSource → String
  | hostPath path => path.text
  | volume name => name

/-- What is mounted, where, and how. -/
def Mount.parts (m : Mount) : List String := m.source.text :: m.target :: m.options.toList

theorem Mount.argument_eq (m : Mount) :
    m.argument = (String.singleton ':').intercalate m.parts := by
  obtain ⟨source, target, options⟩ := m
  cases source <;> cases options <;> simp [argument, parts, MountSource.text, String.append_assoc]

/-- Whether a path of the host is told from the name of a volume by a slash. -/
def MountSource.IsTold : MountSource → Prop
  | hostPath path => '/' ∈ path.text.toList
  | volume name => '/' ∉ name.toList

theorem MountSource.eq_of_text_eq {source source' : MountSource} (h : source.IsTold)
    (h' : source'.IsTold) (htext : source.text = source'.text) : source = source' := by
  cases source with
  | hostPath path =>
    cases source' with
    | hostPath path' => exact congrArg (hostPath ∘ Path.mk) htext
    | volume name' =>
      rw [IsTold, show path.text = name' from htext] at h
      exact absurd h h'
  | volume name =>
    cases source' with
    | hostPath path' =>
      rw [IsTold, show name = path'.text from htext] at h
      exact absurd h' h
    | volume name' => exact congrArg volume htext

/-- Whether it is seen where the parts of a mount end: only how it is mounted may have colons. -/
structure Mount.IsLegible (m : Mount) : Prop where
  source : ':' ∉ m.source.text.toList
  target : ':' ∉ m.target.toList

theorem Mount.eq_of_samePieces {m m' : Mount} (hm : m.IsLegible) (hm' : m'.IsLegible)
    (htold : m.source.IsTold) (htold' : m'.source.IsTold)
    (h : SamePieces ':' m.parts m'.parts) : m = m' := by
  obtain ⟨hsource, hrest⟩ := h.cons_inj hm.source hm'.source
  obtain ⟨htarget, hoptions⟩ := hrest.cons_inj hm.target hm'.target
  obtain ⟨source, target, options⟩ := m
  obtain ⟨source', target', options'⟩ := m'
  exact Mount.mk.injEq .. ▸
    ⟨MountSource.eq_of_text_eq htold htold' hsource, htarget, hoptions.toList_inj⟩

/-! ## Requests -/

namespace CreateRequest

variable {r s : CreateRequest}

/-- What is said with options about the container. -/
def optionValues (r : CreateRequest) : List (String × List String) :=
  [("--network-alias", r.knownAs.toList), ("--env", assignments r.environment),
   ("--workdir", r.workingDirectory.toList), ("--volume", r.mounts.map (·.argument)),
   ("--user", r.user.toList)]

theorem createArguments_eq (r : CreateRequest) :
    createArguments r = "create" :: "--name" :: r.name :: "--network" :: r.network.id ::
      optionList r.optionValues (r.image.id :: r.command) := by
  simp [createArguments, optionValues]

/-- Whether two requests are alike as far as the arguments tell: they agree but for the variables
and the mounts, and these have the same pieces. -/
structure Resembles (r s : CreateRequest) : Prop where
  name : r.name = s.name
  network : r.network = s.network
  knownAs : r.knownAs = s.knownAs
  environment : List.Forall₂ (fun e e' => SamePieces '=' [e.1, e.2] [e'.1, e'.2])
    r.environment.entries s.environment.entries
  workingDirectory : r.workingDirectory = s.workingDirectory
  mounts : List.Forall₂ (fun m m' => SamePieces ':' m.parts m'.parts) r.mounts s.mounts
  user : r.user = s.user
  image : r.image = s.image
  command : r.command = s.command

theorem assignments_eq_iff {env env' : NameMap String} : assignments env = assignments env' ↔
    List.Forall₂ (fun e e' => SamePieces '=' [e.1, e.2] [e'.1, e'.2]) env.entries env'.entries := by
  have hassignment : ∀ e e' : String × String, e.1 ++ "=" ++ e.2 = e'.1 ++ "=" ++ e'.2 ↔
      SamePieces '=' [e.1, e.2] [e'.1, e'.2] := by
    intro e e'
    rw [← intercalate_eq_iff (by simp) (by simp)]
    simp
  rw [assignments, assignments, map_eq_map_iff_forall₂]
  simp only [hassignment]

theorem arguments_eq_iff {mounts mounts' : List Mount} :
    mounts.map (·.argument) = mounts'.map (·.argument) ↔
      List.Forall₂ (fun m m' => SamePieces ':' m.parts m'.parts) mounts mounts' := by
  have hargument : ∀ m m' : Mount, m.argument = m'.argument ↔ SamePieces ':' m.parts m'.parts := by
    intro m m'
    rw [Mount.argument_eq, Mount.argument_eq, intercalate_eq_iff (by simp [Mount.parts])
      (by simp [Mount.parts])]
  rw [map_eq_map_iff_forall₂]
  simp only [hargument]

/-- The rest begins with the image, and that is none of the options. -/
theorem not_mem_of_head? {options : List (String × List String)}
    (hoptions : ∀ option ∈ options.map (·.1), option.toList.head? = some '-')
    (hr : r.image.id.toList.head? ≠ some '-') :
    ∀ first, (r.image.id :: r.command).head? = some first → first ∉ options.map (·.1) := by
  rintro first hfirst hmem
  rw [← Option.some.inj hfirst] at hmem
  exact hr (hoptions _ hmem)

/-- **The arguments tell as much as the pieces do.** Two requests come with the same arguments
exactly if they resemble each other, provided that no image is spelled like an option. -/
theorem createArguments_eq_iff_resembles (hr : r.image.id.toList.head? ≠ some '-')
    (hs : s.image.id.toList.head? ≠ some '-') :
    createArguments r = createArguments s ↔ r.Resembles s := by
  have hoptions : ∀ option ∈ r.optionValues.map (·.1), option.toList.head? = some '-' := by
    simp [optionValues]
  have hnodup : (r.optionValues.map (·.1)).Nodup := by
    simp [optionValues]
  have hvalues : optionList r.optionValues (r.image.id :: r.command) =
      optionList s.optionValues (s.image.id :: s.command) ↔
        r.optionValues = s.optionValues ∧ r.image.id :: r.command = s.image.id :: s.command :=
    optionList_inj rfl hnodup (not_mem_of_head? hoptions hr) (not_mem_of_head? hoptions hs)
  rw [createArguments_eq, createArguments_eq]
  simp only [List.cons.injEq, true_and]
  rw [hvalues]
  simp only [optionValues, List.cons.injEq, Prod.mk.injEq, true_and, and_true,
    toList_eq_toList_iff, assignments_eq_iff, arguments_eq_iff]
  constructor
  · rintro ⟨hname, hnetwork, ⟨hknown, henvironment, hdirectory, hmounts, huser⟩, himage, hcommand⟩
    exact ⟨hname, congrArg Network.mk hnetwork, hknown, henvironment, hdirectory, hmounts, huser,
      congrArg Image.mk himage, hcommand⟩
  · intro h
    exact ⟨h.name, congrArg Network.id h.network,
      ⟨h.knownAs, h.environment, h.workingDirectory, h.mounts, h.user⟩, congrArg Image.id h.image,
      h.command⟩

/-- Whether it is seen where the parts of all variables and mounts end. -/
structure IsLegible (r : CreateRequest) : Prop where
  environment : ∀ e ∈ r.environment.entries, '=' ∉ e.1.toList
  mounts : ∀ m ∈ r.mounts, m.IsLegible

/-- Where the parts of everything are seen, and paths from volumes, nothing is like anything
else. -/
theorem Resembles.eq (h : r.Resembles s) (hr : r.IsLegible) (hs : s.IsLegible)
    (htold : ∀ m ∈ r.mounts, m.source.IsTold) (htold' : ∀ m ∈ s.mounts, m.source.IsTold) :
    r = s := by
  have hentries : r.environment.entries = s.environment.entries := by
    refine eq_of_forall₂ h.environment fun e he e' he' halike => ?_
    obtain ⟨hkey, hvalue⟩ := halike.cons_inj (hr.environment e he) (hs.environment e' he')
    exact Prod.ext hkey hvalue.singleton_inj
  have henvironment : r.environment = s.environment :=
    SortedMap.ext_get? fun key => congrArg (List.lookup key) hentries
  have hmounts : r.mounts = s.mounts :=
    eq_of_forall₂ h.mounts fun m hm m' hm' halike =>
      Mount.eq_of_samePieces (hr.mounts m hm) (hs.mounts m' hm') (htold m hm) (htold' m' hm') halike
  obtain ⟨hname, hnetwork, hknown, -, hdirectory, -, huser, himage, hcommand⟩ := h
  cases r
  cases s
  rw [CreateRequest.mk.injEq]
  exact ⟨hname, himage, hnetwork, hknown, hcommand, henvironment, hdirectory, hmounts, huser⟩

end CreateRequest

end Stevedore
