import SceneTree.Edit
import SceneTree.Leaf
import SceneTree.Pipeline
import SceneTree.Script
import SceneTree.Sketch
import SceneTree.Proofs.Absorption
import SceneTree.Proofs.Bytes
import SceneTree.Proofs.Conservation
import SceneTree.Proofs.Multiplicity
import SceneTree.Proofs.Numbering
import SceneTree.Proofs.Overrides
import SceneTree.Proofs.Patterns
import SceneTree.Proofs.Places
import SceneTree.Proofs.Products
import SceneTree.Proofs.Rearrangement
import SceneTree.Proofs.Resolution
import SceneTree.Proofs.Runs
import SceneTree.Proofs.Sketches
import SceneTree.Proofs.Verdicts
