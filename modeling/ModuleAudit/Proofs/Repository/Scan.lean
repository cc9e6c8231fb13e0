import ModuleAudit.Proofs.Descriptor
import ModuleAudit.Proofs.FileTree
import ModuleAudit.Repository.Disk

/-! What the scan of a repository puts down. A descriptor stands under the name that its text defines (`keyed_scan`), so
a module that is found is what that descriptor says (`exists_text_of_mem_findings`). -/

namespace ModuleAudit
set_option autoImplicit false

namespace DiskRepository

/-- Descriptors stand under the names that their texts define. -/
def Keyed (tree : FileTree) (descriptors : OrderedMap String String) : Prop :=
  ∀ name path, descriptors.get? name = some path →
    ∃ text, tree.readText? path = some text ∧ ModuleDescriptor.readName text = .ok name

variable {tree : FileTree}

theorem Keyed.addDescriptor {state : Log × OrderedMap String String} (h : Keyed tree state.2) {path : String}
    {contents : Bytes} (hread : tree.read? path = some contents) :
    Keyed tree (addDescriptor state path contents).2 := by
  unfold DiskRepository.addDescriptor
  dsimp only
  split
  · exact h
  · rename_i name hname
    split
    · exact h
    · intro other place hplace
      rw [OrderedMap.insert, OrderedMap.get?_alter] at hplace
      split at hplace
      · rename_i hsame
        obtain rfl := Option.some.inj hplace
        rw [hsame]
        unfold nameIn at hname
        split at hname
        · cases hname
        · rename_i text htext
          refine ⟨text, by rw [FileTree.readText?, hread]; exact htext, ?_⟩
          cases hdefined : ModuleDescriptor.readName text with
          | error fault => rw [hdefined] at hname; cases hname
          | ok defined => rw [hdefined] at hname; exact congrArg Except.ok (Except.ok.inj hname)
      · exact h other place hplace

theorem keyed_scan (h : tree.Proper) (roots : List String) : Keyed tree (scan tree roots).2.descriptors := by
  have hnone : Keyed tree (([], {}) : Log × OrderedMap String String).2 := fun _ _ hpath => nomatch hpath
  refine List.foldlRecOn (motive := fun state => Keyed tree state.2) roots (addRoot tree) hnone
    fun state hstate root _ => ?_
  unfold addRoot
  split
  · refine List.foldlRecOn (motive := fun state : Log × OrderedMap String String => Keyed tree state.2) _ _ hstate
      fun state hstate file hfile => ?_
    dsimp only
    split
    · rename_i hlast
      refine hstate.addDescriptor (h.read?_of_mem_walk ?_ hfile)
      rintro hempty
      rw [hempty] at hlast
      cases hlast
    · exact hstate
  · exact hstate

/-- A module that a repository finds is what the descriptor under its name says. -/
theorem exists_text_of_mem_findings {repository : DiskRepository} (h : Keyed tree repository.descriptors)
    {finding : Finding} (hfinding : finding ∈ findings tree repository) {name : String} {mainClass : Option String}
    {roots : List ResourceRoot} {dependencies : List Dependency}
    (houtcome : finding.outcome = .ok (some (.module name mainClass roots dependencies))) :
    ∃ path text resources, repository.descriptors.get? name = some path ∧ tree.readText? path = some text ∧
      ModuleDescriptor.parse text = .ok (.module name mainClass resources dependencies) := by
  obtain ⟨key, -, rfl⟩ := List.mem_map.mp hfinding
  unfold find at houtcome
  split at houtcome
  · cases houtcome
  · rename_i path hpath
    obtain ⟨text, htext, hdefined⟩ := h key path hpath
    rw [htext] at houtcome
    dsimp only at houtcome
    split at houtcome
    · cases houtcome
    · rename_i descriptor hparse
      have hspec : (specOf tree path descriptor).2 = .module name mainClass roots dependencies :=
        Option.some.inj (Except.ok.inj houtcome)
      cases descriptor with
      | link other target => cases hspec
      | module own main resources declared =>
        obtain ⟨rfl, rfl, -, rfl⟩ := ModuleSpec.module.inj hspec
        rw [ModuleDescriptor.readName_of_parse hparse] at hdefined
        obtain rfl : own = key := Except.ok.inj hdefined
        exact ⟨path, text, resources, hpath, htext, hparse⟩

end DiskRepository

end ModuleAudit
