import PointerMotion.Floating.Word
import PointerMotion.Main
import PointerMotion.Proofs.Factory.HandOver
import PointerMotion.Proofs.Factory.PinchArea
import PointerMotion.Proofs.Factory.PinchReversal
import PointerMotion.Proofs.Factory.PinchSymmetry
import PointerMotion.Proofs.Factory.Records
import PointerMotion.Proofs.Factory.Replay
import PointerMotion.Proofs.Factory.ScreenSized
import PointerMotion.Proofs.Factory.SwipeArea
import PointerMotion.Proofs.Factory.SwipeOrder
import PointerMotion.Proofs.Geometry.DistanceLaws
import PointerMotion.Proofs.Geometry.Inset
import PointerMotion.Proofs.Geometry.Isometry
import PointerMotion.Proofs.Geometry.Separation
import PointerMotion.Proofs.Gesture.Accuracy
import PointerMotion.Proofs.Gesture.Continuity
import PointerMotion.Proofs.Gesture.Correspondence
import PointerMotion.Proofs.Gesture.Drift
import PointerMotion.Proofs.Gesture.Progress
import PointerMotion.Proofs.Gesture.Resting
import PointerMotion.Proofs.Factory.Shift
import PointerMotion.Proofs.Factory.Symmetry
import PointerMotion.Proofs.Json.Cut
import PointerMotion.Proofs.Json.Truncation
import PointerMotion.Proofs.Document.Truncation
import PointerMotion.Proofs.Document.Forms
import PointerMotion.Proofs.Settings.Agreement
import PointerMotion.Proofs.Showcase
import PointerMotion.Proofs.Gesture.Endless
import PointerMotion.Proofs.Floating.Multiples
import PointerMotion.Proofs.Gesture.TravelOrder
import PointerMotion.Proofs.Floating.Grid
import PointerMotion.Proofs.Gesture.TravelAccuracy
