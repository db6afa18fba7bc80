import Mathlib.Data.List.Forall2
import StepRunner.ApiServer.Manifest

/-!
# What a manifest tells

A manifest leaves out what is empty and lists an environment by its entries, and nothing of the spec
is lost by that: whatever is left out was empty, whatever is there was not, and all of it stands where
it stood.  So a manifest tells the spec that it was made for, and so does the body of a request.

* `Container.Tells`, `Manifest.Tells`   a manifest against a spec, part by part
* `Manifest.tells_ofSpec`               the manifest of a spec tells it
* `Manifest.Tells.eq_toSpec`            and it tells no other one
* `Manifest.toJson_injective`           no two manifests have one body
* `Manifest.spec_of_manifest`           different specs come to different requests
-/

namespace StepRunner.ApiServer

/-! ## what is left out -/

section

variable {α : Type}

theorem getD_unlessEmpty (l : List α) : (unlessEmpty l).getD [] = l := by
  cases l <;> rfl

theorem unlessEmpty_eq_none_iff {l : List α} : unlessEmpty l = none ↔ l = [] := by
  cases l with
  | nil => exact iff_of_true rfl rfl
  | cons a l => exact iff_of_false nofun nofun

end

/-! ## part by part -/

/-- a container of a manifest against one of a spec; what is left out is empty -/
structure Container.Tells (m : Container) (c : ContainerSpec) : Prop where
  name : m.name = c.name
  image : m.image = c.image
  command : m.command.getD [] = c.command
  command_left_out : m.command = none ↔ c.command = []
  args : m.args.getD [] = c.args
  args_left_out : m.args = none ↔ c.args = []
  env : (m.env.getD []).map (fun v => (v.name, v.value)) = c.env.entries
  env_left_out : m.env = none ↔ c.env = ∅

/-- A manifest against a spec.  Containers stand in the order of the spec, and none of them is ever
restarted. -/
structure Manifest.Tells (m : Manifest) (s : PodSpec) : Prop where
  name : m.name = s.name
  namespaceName : m.namespaceName = s.namespaceName
  labels : m.labels.getD [] = s.labels.entries
  labels_left_out : m.labels = none ↔ s.labels = ∅
  initContainers : List.Forall₂ Container.Tells (m.initContainers.getD []) s.initContainers
  initContainers_left_out : m.initContainers = none ↔ s.initContainers = []
  containers : List.Forall₂ Container.Tells m.containers s.containers
  restartPolicy : m.restartPolicy = "Never"

namespace Container

theorem map_env (d : Dict String) :
    (d.entries.map fun e => (⟨e.1, e.2⟩ : EnvVar)).map (fun v => (v.name, v.value)) =
      d.entries := by
  rw [List.map_map]
  exact List.map_id _

theorem tells_ofSpec (c : ContainerSpec) : (ofSpec c).Tells c where
  name := rfl
  image := rfl
  command := getD_unlessEmpty c.command
  command_left_out := unlessEmpty_eq_none_iff
  args := getD_unlessEmpty c.args
  args_left_out := unlessEmpty_eq_none_iff
  env := (congrArg _ (getD_unlessEmpty _)).trans (map_env c.env)
  env_left_out := unlessEmpty_eq_none_iff.trans (List.map_eq_nil_iff.trans Dict.entries_eq_nil_iff)

theorem Tells.eq_toSpec {m : Container} {c : ContainerSpec} (h : m.Tells c) : c = m.toSpec := by
  obtain ⟨name, image, command, args, env⟩ := c
  rw [toSpec, h.name, h.image, h.command, h.args, h.env, Dict.ofList_entries]

theorem forall₂_tells (cs : List ContainerSpec) : List.Forall₂ Tells (cs.map ofSpec) cs := by
  rw [List.forall₂_map_left_iff, List.forall₂_same]
  exact fun c _ => tells_ofSpec c

theorem eq_map_toSpec {ms : List Container} {cs : List ContainerSpec}
    (h : List.Forall₂ Tells ms cs) : cs = ms.map (·.toSpec) := by
  induction h with
  | nil => rfl
  | cons hm _ ih => rw [List.map_cons, ← hm.eq_toSpec, ← ih]

end Container

namespace Manifest

theorem tells_ofSpec (s : PodSpec) : (ofSpec s).Tells s where
  name := rfl
  namespaceName := rfl
  labels := getD_unlessEmpty _
  labels_left_out := unlessEmpty_eq_none_iff.trans Dict.entries_eq_nil_iff
  initContainers := (getD_unlessEmpty _).symm ▸ Container.forall₂_tells s.initContainers
  initContainers_left_out := unlessEmpty_eq_none_iff.trans List.map_eq_nil_iff
  containers := Container.forall₂_tells s.containers
  restartPolicy := rfl

theorem Tells.eq_toSpec {m : Manifest} {s : PodSpec} (h : m.Tells s) : s = m.toSpec := by
  obtain ⟨name, namespaceName, labels, initContainers, containers⟩ := s
  rw [toSpec, h.name, h.namespaceName, h.labels, Dict.ofList_entries,
    ← Container.eq_map_toSpec h.initContainers, ← Container.eq_map_toSpec h.containers]

theorem ofSpec_injective : Function.Injective ofSpec :=
  Function.LeftInverse.injective fun s => (tells_ofSpec s).eq_toSpec.symm

/-! ## the body of the request -/

theorem str_injective : Function.Injective Json.str := fun _ _ h => Json.str.inj h

theorem ofList_injective {α : Type} {write : α → Json} (h : Function.Injective write) :
    Function.Injective (Json.ofList write) := by
  intro l l' heq
  exact List.map_injective_iff.2 h (Json.arr.inj heq)

/-- a member that may be left out can be told from those behind it, which have other names -/
theorem eq_of_member_append {α : Type} {name : String} {write : α → Json}
    (hwrite : Function.Injective write) {a a' : Option α} {rest rest' : List (String × Json)}
    (hrest : ∀ m ∈ rest, m.1 ≠ name) (hrest' : ∀ m ∈ rest', m.1 ≠ name)
    (h : member name write a ++ rest = member name write a' ++ rest') : a = a' ∧ rest = rest' := by
  cases a with
  | none =>
    cases a' with
    | none => exact ⟨rfl, h⟩
    | some b =>
      have hmem : (name, write b) ∈ rest := by
        rw [show rest = _ from h]
        exact List.mem_cons_self
      exact absurd rfl (hrest _ hmem)
  | some b =>
    cases a' with
    | none =>
      have hmem : (name, write b) ∈ rest' := by
        rw [show rest' = _ from h.symm]
        exact List.mem_cons_self
      exact absurd rfl (hrest' _ hmem)
    | some b' =>
      obtain ⟨hhead, htail⟩ := List.cons.inj h
      exact ⟨congrArg some (hwrite (Prod.mk.inj hhead).2), htail⟩

theorem eq_of_member {α : Type} {name : String} {write : α → Json}
    (hwrite : Function.Injective write) {a a' : Option α}
    (h : member name write a = member name write a') : a = a' := by
  rw [← List.append_nil (member name write a), ← List.append_nil (member name write a')] at h
  exact (eq_of_member_append hwrite (by simp) (by simp) h).1

theorem envJson_injective : Function.Injective envJson := by
  rintro ⟨name, value⟩ ⟨name', value'⟩ h
  simp only [envJson, Json.obj.injEq, List.cons.injEq, Prod.mk.injEq, Json.str.injEq, true_and,
    and_true] at h
  rw [h.1, h.2]

theorem labelsJson_injective : Function.Injective labelsJson := by
  intro l l' h
  refine List.map_injective_iff.2 ?_ (Json.obj.inj h)
  rintro ⟨key, value⟩ ⟨key', value'⟩ hentry
  obtain ⟨hkey, hvalue⟩ := Prod.mk.inj hentry
  exact Prod.ext hkey (str_injective hvalue)

theorem fst_of_mem_member {α : Type} {name : String} {write : α → Json} {a : Option α}
    {m : String × Json} (h : m ∈ member name write a) : m.1 = name := by
  cases a with
  | none => cases h
  | some a => rw [List.mem_singleton.1 h]

theorem ne_of_mem_member {α : Type} {name other : String} {write : α → Json} {a : Option α}
    (hne : name ≠ other) : ∀ m ∈ member name write a, m.1 ≠ other :=
  fun _ h => fst_of_mem_member h ▸ hne

theorem containerJson_injective : Function.Injective containerJson := by
  rintro ⟨name, image, command, args, env⟩ ⟨name', image', command', args', env'⟩ h
  simp only [containerJson, Json.obj.injEq, List.append_assoc, List.cons_append, List.nil_append,
    List.cons.injEq, Prod.mk.injEq, Json.str.injEq, true_and] at h
  obtain ⟨rfl, rfl, hmembers⟩ := h
  have henv {env : Option (List EnvVar)} : ∀ m ∈ member "env" (.ofList envJson) env, m.1 ≠ "args" :=
    ne_of_mem_member (by decide)
  have hargs {args : Option (List String)} {env : Option (List EnvVar)} :
      ∀ m ∈ member "args" (.ofList .str) args ++ member "env" (.ofList envJson) env,
        m.1 ≠ "command" :=
    List.forall_mem_append.2 ⟨ne_of_mem_member (by decide), ne_of_mem_member (by decide)⟩
  obtain ⟨rfl, hbehind⟩ := eq_of_member_append (ofList_injective str_injective) hargs hargs hmembers
  obtain ⟨rfl, hlast⟩ := eq_of_member_append (ofList_injective str_injective) henv henv hbehind
  obtain rfl := eq_of_member (ofList_injective envJson_injective) hlast
  rfl

/-- **No two manifests have one body.** -/
theorem toJson_injective : Function.Injective toJson := by
  rintro ⟨name, namespaceName, labels, restartPolicy, initContainers, containers⟩
    ⟨name', namespaceName', labels', restartPolicy', initContainers', containers'⟩ h
  simp only [toJson, Json.obj.injEq, List.cons.injEq, Prod.mk.injEq, Json.str.injEq, true_and,
    and_true, List.cons_append, List.nil_append] at h
  obtain ⟨⟨rfl, rfl, hlabels⟩, hspec⟩ := h
  obtain rfl := eq_of_member labelsJson_injective hlabels
  have hothers {containers : List Container} {restartPolicy : String} :
      ∀ m ∈ [("containers", Json.ofList containerJson containers),
        ("restartPolicy", .str restartPolicy)], m.1 ≠ "initContainers" := by
    simp
  obtain ⟨rfl, hbehind⟩ :=
    eq_of_member_append (ofList_injective containerJson_injective) hothers hothers hspec
  simp only [List.cons.injEq, Prod.mk.injEq, Json.str.injEq, true_and, and_true] at hbehind
  obtain ⟨hcontainers, rfl⟩ := hbehind
  obtain rfl := ofList_injective containerJson_injective hcontainers
  rfl

/-- **A request loses nothing of a spec.**  Its manifest tells the spec part by part and has no
container restarted; it tells no other spec, and the spec can be read back from it.  Different specs
come to different manifests, and to different bodies of the request. -/
theorem spec_of_manifest :
    (∀ s : PodSpec, (ofSpec s).Tells s ∧ (ofSpec s).toSpec = s) ∧
      (∀ (m : Manifest) (s s' : PodSpec), m.Tells s → m.Tells s' → s = s') ∧
      Function.Injective ofSpec ∧ Function.Injective fun s => (ofSpec s).toJson :=
  ⟨fun s => ⟨tells_ofSpec s, (tells_ofSpec s).eq_toSpec.symm⟩,
    fun _ _ _ h h' => h.eq_toSpec.trans h'.eq_toSpec.symm, ofSpec_injective,
    toJson_injective.comp ofSpec_injective⟩

end Manifest

end StepRunner.ApiServer
