import BlockScript.Image.Codec
import BlockScript.Image.Link
import BlockScript.Image.Listing
import BlockScript.Machine.Execution
import BlockScript.Primitive
import BlockScript.Program
import BlockScript.Proofs.Codec
import BlockScript.Proofs.Evaluation
import BlockScript.Proofs.Layout
import BlockScript.Proofs.Lowering
import BlockScript.Proofs.Nodes
import BlockScript.Proofs.Origins
import BlockScript.Proofs.Pieces
import BlockScript.Proofs.Refinement
import BlockScript.Proofs.Safety
import BlockScript.Proofs.Shapes
import BlockScript.Proofs.Simulation
import BlockScript.Proofs.Tables
import BlockScript.Proofs.Threads
import BlockScript.Proofs.Ticks
import BlockScript.Proofs.Turns
import BlockScript.Proofs.Untimed
import BlockScript.Proofs.Variants
import BlockScript.Proofs.Verification
import BlockScript.Routine.Draft
import BlockScript.Routine.Image
import BlockScript.Session
import BlockScript.Support
import BlockScript.Variant.Queue
import BlockScript.Variant.Table
import BlockScript.Proofs.Confinement
import BlockScript.Proofs.Stopping
import BlockScript.Proofs.Closure
import BlockScript.Project
import BlockScript.Proofs.WriteOnce
import BlockScript.Proofs.Agreement
import BlockScript.Proofs.Histories
import BlockScript.Proofs.Deferral
import BlockScript.Proofs.Effects
import BlockScript.Proofs.Warp
import BlockScript.Proofs.Atomicity
import BlockScript.Proofs.Naturals
import BlockScript.Proofs.Counters
import BlockScript.Proofs.Rounds
import BlockScript.Proofs.Responsiveness
import BlockScript.Proofs.Sandbox
import BlockScript.Proofs.Recursion
import BlockScript.Proofs.Changes
import BlockScript.Proofs.Marks
import BlockScript.Proofs.Plain
import BlockScript.Proofs.Twins
import BlockScript.Proofs.Views
import BlockScript.Proofs.Courses
import BlockScript.Proofs.Configurations
import BlockScript.Proofs.StackEffects
import BlockScript.Proofs.Heights
import BlockScript.Proofs.Levels
import BlockScript.Proofs.Activations
import BlockScript.Proofs.Intervals
import BlockScript.Proofs.Windows
import BlockScript.Proofs.Comparison
import BlockScript.Proofs.Escapes
import BlockScript.Proofs.Search
import BlockScript.Proofs.Rounding
import BlockScript.Proofs.Repetition
import BlockScript.Proofs.Truncation
import BlockScript.Proofs.Limits
import BlockScript.Proofs.Refusals
import BlockScript.Proofs.Literals
import BlockScript.Proofs.Scanning
import BlockScript.Proofs.Discovery
import BlockScript.Proofs.Decimals
import BlockScript.Proofs.Numerals
import BlockScript.Proofs.Spelling
