import Mathlib.Data.List.Nodup
import DelayedQueue.Keys

/-! # Keys tell queues apart

A key says of which queue it is and what lies under it, whatever the queue is called. So no two of
the keys of two queues are the same.
-/

namespace DelayedQueue.Keys

variable {name name' kind kind' : String}

def kinds : List String := ["ready", "retry", "data"]

theorem tagged_inj (hk : kind ∈ kinds) (hk' : kind' ∈ kinds)
    (h : tagged name kind = tagged name' kind') : name = name' ∧ kind = kind' := by
  have hr := congrArg (fun s => s.toList.reverse) h
  simp only [tagged, String.toList_append, List.reverse_append] at hr
  simp only [kinds, List.mem_cons, List.not_mem_nil, or_false] at hk hk'
  rw [← String.toList_inj]
  rcases hk with rfl | rfl | rfl <;> rcases hk' with rfl | rfl | rfl <;> simp_all

theorem all_ofName (name : String) : (ofName name).all = kinds.map (tagged name) := rfl

theorem mem_all_ofName {key : String} (h : key ∈ (ofName name).all) :
    ∃ kind ∈ kinds, key = tagged name kind := by
  rw [all_ofName] at h
  obtain ⟨kind, hk, rfl⟩ := List.mem_map.mp h
  exact ⟨kind, hk, rfl⟩

theorem nodup_all (name : String) : (ofName name).all.Nodup := by
  rw [all_ofName]
  exact (by decide : kinds.Nodup).map_on fun _ hk _ hk' h => (tagged_inj hk hk' h).2

theorem nodup_all_append (h : name ≠ name') : ((ofName name).all ++ (ofName name').all).Nodup := by
  refine List.nodup_append.mpr ⟨nodup_all name, nodup_all name', ?_⟩
  rintro a ha b hb rfl
  obtain ⟨kind, hk, rfl⟩ := mem_all_ofName ha
  obtain ⟨kind', hk', he⟩ := mem_all_ofName hb
  exact h (tagged_inj hk hk' he).1

theorem data_ofName_inj : (ofName name).data = (ofName name').data ↔ name = name' :=
  ⟨fun h => (tagged_inj (by decide) (by decide) h).1, fun h => h ▸ rfl⟩

end DelayedQueue.Keys
